import SceneAudit.Proofs.Text.Basic

/-! # Occurrences between separators

A text and its pieces between separators determine each other. So a text that occurs in another with
a separator on either side is a run of whole pieces there. With a separator on one side only, the
piece at the open end of the run may be longer.
-/

namespace SceneAudit.Text

section Occurrences

variable {p t : Text}

theorem startsWith_iff_prefix : startsWith p t = true ↔ p <+: t := by
  rw [startsWith_iff]
  exact exists_congr fun r => eq_comm

theorem endsWith_iff_suffix : endsWith p t = true ↔ p <:+ t := by
  rw [endsWith, startsWith_iff_prefix, List.reverse_prefix]

theorem occursIn_iff_infix : occursIn p t = true ↔ p <:+: t := by
  induction t with
  | nil => rw [occursIn, List.isEmpty_iff, List.infix_nil]
  | cons c t ih => rw [occursIn, Bool.or_eq_true, startsWith_iff_prefix, ih, List.infix_cons_iff]

end Occurrences

section Pieces

variable {sep : Char} {s t : Text} {as bs : List Text}

theorem splitOn_eq (sep : Char) (t : Text) : splitOn sep t = List.splitOn sep t := by
  induction t using splitOn_induct sep with
  | nil => rfl
  | separator t ih =>
    rw [List.splitOn_cons_eq_if_modifyHead, ← ih, splitOn_cons_sep,
      if_pos (beq_self_eq_true sep)]
  | other c t piece pieces hc ht ih =>
    rw [List.splitOn_cons_eq_if_modifyHead, ← ih, splitOn_cons hc ht, ht,
      if_neg (by simpa using hc), List.modifyHead_cons]

theorem joinWith_eq (sep : Text) (ts : List Text) : joinWith sep ts = sep.intercalate ts := by
  fun_induction joinWith sep ts with
  | case1 => rfl
  | case2 t => rw [List.intercalate_singleton]
  | case3 t u ts ih => rw [List.intercalate_cons_cons, ih]

theorem joinWith_splitOn (sep : Char) (t : Text) : joinWith [sep] (splitOn sep t) = t := by
  rw [joinWith_eq, splitOn_eq, List.intercalate_splitOn]

theorem splitOn_joinWith (hs : ∀ a ∈ as, sep ∉ a) (hne : as ≠ []) :
    splitOn sep (joinWith [sep] as) = as := by
  rw [joinWith_eq, splitOn_eq, List.splitOn_intercalate sep hs hne]

theorem splitOn_injective (sep : Char) : Function.Injective (splitOn sep) :=
  Function.LeftInverse.injective (joinWith_splitOn sep)

theorem splitOn_eq_append_iff (ha : as ≠ []) (hb : bs ≠ []) : splitOn sep t = as ++ bs ↔
    ∃ s u, t = s ++ sep :: u ∧ splitOn sep s = as ∧ splitOn sep u = bs := by
  constructor
  · intro h
    have hwhole : ∀ piece ∈ as ++ bs, sep ∉ piece := fun piece hpiece =>
      not_mem_of_mem_splitOn (h ▸ hpiece)
    have has := splitOn_joinWith (fun a h => hwhole a (List.mem_append_left bs h)) ha
    have hbs := splitOn_joinWith (fun b h => hwhole b (List.mem_append_right as h)) hb
    refine ⟨joinWith [sep] as, joinWith [sep] bs, ?_, has, hbs⟩
    apply splitOn_injective sep
    rw [h, splitOn_append_sep, has, hbs]
  · rintro ⟨s, u, rfl, rfl, rfl⟩
    exact splitOn_append_sep s u

theorem splitOn_append {a b : Text} (hs : splitOn sep s = as ++ [a])
    (ht : splitOn sep t = b :: bs) : splitOn sep (s ++ t) = as ++ (a ++ b) :: bs := by
  have hlast : ∀ {s}, splitOn sep s = [a] → splitOn sep (s ++ t) = (a ++ b) :: bs := by
    intro s hs
    obtain rfl : s = a := by rw [← joinWith_splitOn sep s, hs]; rfl
    exact splitOn_append_of_not_mem (not_mem_of_mem_splitOn (hs ▸ List.mem_singleton_self s)) ht
  by_cases has : as = []
  · subst has
    exact hlast hs
  · obtain ⟨front, last, rfl, rfl, hend⟩ := (splitOn_eq_append_iff has (by simp)).mp hs
    rw [List.append_assoc, List.cons_append, splitOn_append_sep, hlast hend]

theorem splitOn_eq_inside_iff {a b : Text} : splitOn sep t = as ++ (a ++ b) :: bs ↔
    ∃ s u, t = s ++ u ∧ splitOn sep s = as ++ [a] ∧ splitOn sep u = b :: bs := by
  constructor
  · intro h
    have hwhole : ∀ piece ∈ as ++ (a ++ b) :: bs, sep ∉ piece := fun piece hpiece =>
      not_mem_of_mem_splitOn (h ▸ hpiece)
    obtain ⟨has, hrest⟩ := List.forall_mem_append.mp hwhole
    obtain ⟨hpiece, hbs⟩ := List.forall_mem_cons.mp hrest
    obtain ⟨ha, hb⟩ := not_or.mp (mt List.mem_append.mpr hpiece)
    have hs : splitOn sep (joinWith [sep] (as ++ [a])) = as ++ [a] :=
      splitOn_joinWith (List.forall_mem_append.mpr ⟨has, List.forall_mem_singleton.mpr ha⟩)
        (by simp)
    have hu : splitOn sep (joinWith [sep] (b :: bs)) = b :: bs :=
      splitOn_joinWith (List.forall_mem_cons.mpr ⟨hb, hbs⟩) (List.cons_ne_nil b bs)
    exact ⟨_, _, splitOn_injective sep (h.trans (splitOn_append hs hu).symm), hs, hu⟩
  · rintro ⟨s, u, rfl, hs, hu⟩
    exact splitOn_append hs hu

end Pieces

/-- Names one after another, but for more text behind the last one. -/
def LongerBehind (names run : List Text) : Prop :=
  ∃ before last more, names = before ++ [last] ∧ run = before ++ [last ++ more]

/-- Names one after another, but for more text in front of the first one. -/
def LongerInFront (names run : List Text) : Prop :=
  ∃ first after less, names = first :: after ∧ run = (less ++ first) :: after

section Longer

variable {names run : List Text}

theorem LongerBehind.eq_of_exact (h : LongerBehind names run)
    (hexact : ∀ piece ∈ run, ∀ last ∈ names.getLast?, last <+: piece → piece = last) :
    run = names := by
  obtain ⟨before, last, more, rfl, rfl⟩ := h
  rw [hexact (last ++ more) (by simp) last (by simp) (List.prefix_append last more)]

theorem LongerInFront.eq_of_exact (h : LongerInFront names run)
    (hexact : ∀ piece ∈ run, ∀ first ∈ names.head?, first <:+ piece → piece = first) :
    run = names := by
  obtain ⟨first, after, less, rfl, rfl⟩ := h
  rw [hexact (less ++ first) (by simp) first (by simp) (List.suffix_append less first)]

end Longer

section Runs

variable (sep : Char) {p t : Text}

theorem prefix_iff_pieces : p <+: t ↔
    ∃ run rest, LongerBehind (splitOn sep p) run ∧ splitOn sep t = run ++ rest := by
  constructor
  · rintro ⟨u, rfl⟩
    obtain ⟨before, last, hp⟩ := (List.eq_nil_or_concat' (splitOn sep p)).resolve_left
      (splitOn_ne_nil sep p)
    obtain ⟨more, rest, hu⟩ := List.exists_cons_of_ne_nil (splitOn_ne_nil sep u)
    refine ⟨before ++ [last ++ more], rest, ⟨before, last, more, hp, rfl⟩, ?_⟩
    rw [splitOn_append hp hu, List.append_assoc]
    rfl
  · rintro ⟨_, rest, ⟨before, last, more, hp, rfl⟩, ht⟩
    rw [List.append_assoc] at ht
    obtain ⟨s, u, rfl, hs, -⟩ := splitOn_eq_inside_iff.mp ht
    obtain rfl := splitOn_injective sep (hs.trans hp.symm)
    exact List.prefix_append s u

theorem suffix_iff_pieces : p <:+ t ↔
    ∃ front run, LongerInFront (splitOn sep p) run ∧ splitOn sep t = front ++ run := by
  constructor
  · rintro ⟨s, rfl⟩
    obtain ⟨front, less, hs⟩ := (List.eq_nil_or_concat' (splitOn sep s)).resolve_left
      (splitOn_ne_nil sep s)
    obtain ⟨first, after, hp⟩ := List.exists_cons_of_ne_nil (splitOn_ne_nil sep p)
    exact ⟨front, _, ⟨first, after, less, hp, rfl⟩, splitOn_append hs hp⟩
  · rintro ⟨front, _, ⟨first, after, less, hp, rfl⟩, ht⟩
    obtain ⟨s, u, rfl, -, hu⟩ := splitOn_eq_inside_iff.mp ht
    obtain rfl := splitOn_injective sep (hu.trans hp.symm)
    exact List.suffix_append s u

theorem infix_concat_iff_pieces : p ++ [sep] <:+: t ↔
    ∃ front run rest, LongerInFront (splitOn sep p) run ∧ rest ≠ [] ∧
      splitOn sep t = front ++ run ++ rest := by
  constructor
  · rintro ⟨s, u, rfl⟩
    obtain ⟨front, run, hrun, hs⟩ := (suffix_iff_pieces sep).mp (List.suffix_append s p)
    refine ⟨front, run, splitOn sep u, hrun, splitOn_ne_nil sep u, ?_⟩
    rw [← List.append_assoc, List.append_assoc, List.singleton_append, splitOn_append_sep, hs]
  · rintro ⟨front, run, rest, hrun, hrest, ht⟩
    have hne : front ++ run ≠ [] := by
      obtain ⟨first, after, less, -, rfl⟩ := hrun
      simp
    obtain ⟨s, u, rfl, hs, -⟩ := (splitOn_eq_append_iff hne hrest).mp ht
    obtain ⟨v, rfl⟩ := (suffix_iff_pieces sep).mpr ⟨front, run, hrun, hs⟩
    exact ⟨v, u, by simp⟩

theorem infix_cons_iff_pieces : sep :: p <:+: t ↔
    ∃ front run rest, front ≠ [] ∧ LongerBehind (splitOn sep p) run ∧
      splitOn sep t = front ++ run ++ rest := by
  constructor
  · rintro ⟨s, u, rfl⟩
    obtain ⟨run, rest, hrun, hu⟩ := (prefix_iff_pieces sep).mp (List.prefix_append p u)
    refine ⟨splitOn sep s, run, rest, splitOn_ne_nil sep s, hrun, ?_⟩
    rw [List.append_assoc, List.cons_append, splitOn_append_sep, hu, List.append_assoc]
  · rintro ⟨front, run, rest, hfront, hrun, ht⟩
    have hne : run ++ rest ≠ [] := by
      obtain ⟨before, last, more, -, rfl⟩ := hrun
      simp
    rw [List.append_assoc] at ht
    obtain ⟨s, u, rfl, -, hu⟩ := (splitOn_eq_append_iff hfront hne).mp ht
    obtain ⟨v, rfl⟩ := (prefix_iff_pieces sep).mpr ⟨run, rest, hrun, hu⟩
    exact ⟨s, v, by simp⟩

/-- Text between two separators, or between the start and one, is a run of whole pieces. -/
theorem infix_between_iff_pieces : (sep :: p ++ [sep] <:+: t ∨ p ++ [sep] <+: t) ↔
    ∃ front rest, rest ≠ [] ∧ splitOn sep t = front ++ splitOn sep p ++ rest := by
  constructor
  · rintro (⟨s, u, rfl⟩ | ⟨u, rfl⟩)
    · refine ⟨splitOn sep s, splitOn sep u, splitOn_ne_nil sep u, ?_⟩
      rw [List.append_assoc, List.cons_append, List.cons_append, splitOn_append_sep,
        List.append_assoc, List.singleton_append, splitOn_append_sep, List.append_assoc]
    · refine ⟨[], splitOn sep u, splitOn_ne_nil sep u, ?_⟩
      rw [List.append_assoc, List.singleton_append, splitOn_append_sep, List.nil_append]
  · rintro ⟨front, rest, hrest, ht⟩
    have hbelow : ∀ {t}, splitOn sep t = splitOn sep p ++ rest → p ++ [sep] <+: t := by
      intro t ht
      obtain ⟨s, u, rfl, hs, -⟩ := (splitOn_eq_append_iff (splitOn_ne_nil sep p) hrest).mp ht
      obtain rfl := splitOn_injective sep hs
      exact ⟨u, by simp⟩
    by_cases hfront : front = []
    · subst hfront
      exact Or.inr (hbelow ht)
    · rw [List.append_assoc] at ht
      obtain ⟨s, u, rfl, -, hu⟩ := (splitOn_eq_append_iff hfront (by simp [hrest])).mp ht
      obtain ⟨v, rfl⟩ := hbelow hu
      exact Or.inl ⟨s, v, by simp⟩

end Runs

end SceneAudit.Text
