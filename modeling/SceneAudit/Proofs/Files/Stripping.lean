import SceneAudit.Proofs.Files.Below

/-! # Paths seen from a base

A path whose components begin with those of a base is seen from the base as the rest of its
components, however both are spelled; any other path is seen as it stands. The end of the base is
the end of a component: text that goes on within a component of the path does not count.
-/

namespace SceneAudit

namespace Path

section Trim

theorem trimFront_suffix (t : Text) : trimFront t <:+ t := by
  fun_induction trimFront t with
  | case1 => exact List.suffix_rfl
  | case2 t ih => exact ih.trans (List.suffix_cons '/' t)
  | case3 t ih => exact ih.trans (List.suffix_append ['.', '/'] t)
  | case4 => exact List.nil_suffix
  | case5 t => exact List.suffix_rfl

theorem trimBack_isPrefix (t : Text) : trimBack t <+: t := by
  rw [trimBack, ← List.reverse_suffix, List.reverse_reverse]
  exact trimFront_suffix t.reverse

theorem dropComponents_suffix (n : Nat) (t : Text) : dropComponents n t <:+ t := by
  induction n generalizing t with
  | zero => exact List.suffix_rfl
  | succ n ih =>
    exact (ih _).trans ((List.dropWhile_suffix _).trans (trimFront_suffix t))

theorem split_trimFront (t : Text) : split (trimFront t) = (.plain, trimFront t) := by
  fun_induction trimFront t with
  | case1 => rfl
  | case2 t ih => exact ih
  | case3 t ih => exact ih
  | case4 => rfl
  | case5 t hnil hslash hbelow hdot =>
    unfold split
    split
    · rename_i body
      exact absurd rfl (hslash body)
    · exact absurd rfl hdot
    · rename_i body
      exact absurd rfl (hbelow body)
    · rfl

theorem split_of_append_slash {s t : Text}
    (h : split (s ++ '/' :: t) = (.plain, s ++ '/' :: t)) : split s = (.plain, s) := by
  fun_cases split s with
  | case1 body => simp [split] at h
  | case2 => simp [split] at h
  | case3 body => simp [split] at h
  | case4 => rfl

theorem split_trim (t : Text) :
    split (trimBack (trimFront t)) = (.plain, trimBack (trimFront t)) := by
  rcases trimBack_cases (trimFront t) with hnil | hsame | ⟨junk, hjunk⟩
  · rw [hnil]
    rfl
  · rw [hsame, split_trimFront]
  · exact split_of_append_slash (hjunk ▸ split_trimFront t)

theorem bodyComponents_cons_slash (t : Text) : bodyComponents ('/' :: t) = bodyComponents t :=
  bodyComponents_append [] t

@[simp] theorem bodyComponents_trimFront (t : Text) :
    bodyComponents (trimFront t) = bodyComponents t := by
  fun_induction trimFront t with
  | case1 => rfl
  | case2 t ih => rw [ih, bodyComponents_cons_slash]
  | case3 t ih => exact ih.trans (bodyComponents_append ['.'] t).symm
  | case4 => rfl
  | case5 t => rfl

@[simp] theorem bodyComponents_trimBack (t : Text) :
    bodyComponents (trimBack t) = bodyComponents t := by
  have hreverse : ∀ r : Text, bodyComponents (trimFront r).reverse = bodyComponents r.reverse := by
    intro r
    fun_induction trimFront r with
    | case1 => rfl
    | case2 t ih =>
      rw [ih, List.reverse_cons, bodyComponents_append]
      exact (List.append_nil _).symm
    | case3 t ih =>
      have happend := bodyComponents_append t.reverse ['.']
      rw [ih, List.reverse_cons, List.reverse_cons, List.append_assoc, List.singleton_append,
        happend]
      exact (List.append_nil _).symm
    | case4 => rfl
    | case5 t => rfl
  rw [trimBack, hreverse, List.reverse_reverse]

theorem bodyComponents_dropWhile {t : Text} (ht : split t = (.plain, t)) :
    bodyComponents (t.dropWhile (· ≠ '/')) = (bodyComponents t).tail := by
  rcases eq_or_exists_slash t with hslash | ⟨piece, rest, hslash, rfl⟩
  · have hdrop : t.dropWhile (· ≠ '/') = [] := by
      rw [List.dropWhile_eq_nil_iff]
      rintro c hc
      exact decide_eq_true fun heq => hslash (heq ▸ hc)
    rw [hdrop, bodyComponents_of_not_mem hslash]
    cases component? t <;> rfl
  · have hcomponent : component? piece ≠ none := by
      rw [Ne, component?_eq_none_iff]
      rintro (rfl | rfl) <;> simp [split] at ht
    obtain ⟨c, hc⟩ := Option.ne_none_iff_exists'.mp hcomponent
    rw [dropWhile_piece hslash, bodyComponents_append, bodyComponents_of_not_mem hslash, hc,
      bodyComponents_cons_slash]
    rfl

theorem bodyComponents_dropComponents (n : Nat) (t : Text) :
    bodyComponents (dropComponents n t) = (bodyComponents t).drop n := by
  induction n generalizing t with
  | zero => rfl
  | succ n ih =>
    rw [dropComponents, ih, bodyComponents_dropWhile (split_trimFront t), bodyComponents_trimFront,
      List.drop_tail]

end Trim

section Strip

variable {base path rest : Text}

theorem body_subset (path : Text) : (split path).2 ⊆ path := by
  have hsplit : path = startText (split path).1 ++ (split path).2 := startText_append_of_split rfl
  intro c hc
  rw [hsplit]
  exact List.mem_append_right _ hc

theorem trim_dropComponents_subset (n : Nat) (t : Text) :
    trimBack (trimFront (dropComponents n t)) ⊆ t := fun _ hc =>
  (dropComponents_suffix n t).subset ((trimFront_suffix _).subset ((trimBack_isPrefix _).subset hc))

theorem append_bodyComponents_trim {cs : List Component} {body : Text}
    (h : cs <+: bodyComponents body) :
    cs ++ bodyComponents (trimBack (trimFront (dropComponents cs.length body))) =
      bodyComponents body := by
  rw [bodyComponents_trimBack, bodyComponents_trimFront, bodyComponents_dropComponents]
  exact List.prefix_iff_eq_append.mp h

theorem stripBase?_of_prefix (hbase : base ≠ []) (h : components base <+: components path) :
    ∃ rest, stripBase? base path = some rest ∧ split rest = (.plain, rest) ∧
      components base ++ bodyComponents rest = components path ∧ rest ⊆ path := by
  obtain ⟨first, others, hcons⟩ := List.exists_cons_of_ne_nil (components_ne_nil hbase)
  have hpath : components path =
    startComponents (split path).1 ++ bodyComponents (split path).2 := rfl
  have hsub := body_subset path
  rw [stripBase?, hcons, hpath]
  rw [hcons, hpath] at h
  generalize split path = parts at h hsub ⊢
  obtain ⟨start, body⟩ := parts
  have hinside := fun n => List.Subset.trans (trim_dropComponents_subset n body) hsub
  cases start with
  | plain =>
    exact ⟨_, if_pos (List.isPrefixOf_iff_prefix.mpr h), split_trim _,
      append_bodyComponents_trim h, hinside _⟩
  | root | here =>
    obtain ⟨rfl, hothers⟩ := List.cons_prefix_cons.mp h
    exact ⟨_, if_pos ⟨rfl, List.isPrefixOf_iff_prefix.mpr hothers⟩, split_trim _,
      congrArg (List.cons _) (append_bodyComponents_trim hothers), hinside _⟩

theorem stripBase?_of_not_prefix (hbase : base ≠ [])
    (h : ¬ components base <+: components path) : stripBase? base path = none := by
  obtain ⟨first, others, hcons⟩ := List.exists_cons_of_ne_nil (components_ne_nil hbase)
  have hpath : components path =
    startComponents (split path).1 ++ bodyComponents (split path).2 := rfl
  rw [stripBase?, hcons]
  rw [hcons, hpath] at h
  generalize split path = parts at h ⊢
  obtain ⟨start, body⟩ := parts
  cases start with
  | plain => exact if_neg fun hprefix => h (List.isPrefixOf_iff_prefix.mp hprefix)
  | root | here =>
    refine if_neg ?_
    rintro ⟨hfirst, hprefix⟩
    apply h
    rw [← List.singleton_append, ← hfirst]
    exact (List.prefix_append_right_inj _).mpr (List.isPrefixOf_iff_prefix.mp hprefix)

theorem components_of_split (h : split rest = (.plain, rest)) :
    components rest = bodyComponents rest := by
  rw [components, h]
  rfl

theorem isAbsolute_of_split (h : split rest = (.plain, rest)) : isAbsolute rest = false := by
  rw [isAbsolute, beq_eq_false_iff_ne]
  intro hhead
  obtain ⟨t, rfl⟩ := List.head?_eq_some_iff.mp hhead
  simp [split] at h

end Strip

section EndsInside

/-- The text of a path begins with that of `base` and goes on inside the last component of `base`,
which its text after the last slash spells. (A `.` spells one only where the path begins.) -/
def EndsInside (base path : Text) : Prop :=
  ∃ front piece c rest, base = front ++ piece ∧ path = base ++ c :: rest ∧ c ≠ '/' ∧
    (front = [] ∨ front.getLast? = some '/') ∧ '/' ∉ piece ∧ piece ≠ [] ∧
      (piece = ['.'] → front = [])

variable {base path piece rest : Text} {c : Char}

theorem component?_eq_some {p : Text} {k : Component} (h : component? p = some k) :
    k = .up ∧ p = ['.', '.'] ∨ k = .name p := by
  unfold component? at h
  split at h
  · simp at h
  · split at h <;> obtain rfl := Option.some.inj h
    · exact Or.inl ⟨rfl, ‹_›⟩
    · exact Or.inr rfl

theorem component?_injective {p q : Text} {k : Component} (hp : component? p = some k)
    (hq : component? q = some k) : p = q := by
  rcases component?_eq_some hp with ⟨rfl, rfl⟩ | rfl
  · rcases component?_eq_some hq with ⟨-, rfl⟩ | hk
    · rfl
    · cases hk
  · rcases component?_eq_some hq with ⟨hk, -⟩ | hk
    · cases hk
    · exact Component.name.inj hk

variable (hslash : '/' ∉ piece) (hne : piece ≠ []) (hc : c ≠ '/')

include hslash hne hc

theorem exists_longer_piece (rest : Text) : ∃ more k cs, more ≠ [] ∧
    component? (piece ++ more) = some k ∧ bodyComponents (piece ++ c :: rest) = k :: cs := by
  obtain ⟨more, cs, hmore, hslash', hcs⟩ : ∃ more cs, more ≠ [] ∧ '/' ∉ more ∧
      bodyComponents (piece ++ c :: rest) = (component? (piece ++ more)).toList ++ cs := by
    rcases eq_or_exists_slash (c :: rest) with hrest | ⟨more, tail, hmore, htail⟩
    · refine ⟨c :: rest, [], List.cons_ne_nil c rest, hrest, ?_⟩
      rw [bodyComponents_of_not_mem (by simpa [hslash] using hrest), List.append_nil]
    · refine ⟨more, bodyComponents tail, ?_, hmore, ?_⟩
      · rintro rfl
        exact hc (List.cons.inj htail).1
      · rw [htail, ← List.append_assoc, bodyComponents_append,
          bodyComponents_of_not_mem (by simp [hslash, hmore])]
  have hlonger : component? (piece ++ more) ≠ none := by
    rw [Ne, component?_eq_none_iff, List.append_eq_nil_iff, List.append_eq_singleton_iff]
    simp [hne, hmore]
  obtain ⟨k, hk⟩ := Option.ne_none_iff_exists'.mp hlonger
  exact ⟨more, k, cs, hmore, hk, by rw [hcs, hk]; rfl⟩

theorem split_goesOn (rest : Text) :
    split (piece ++ c :: rest) = (.plain, piece ++ c :: rest) := by
  obtain ⟨d, t, rfl⟩ := List.exists_cons_of_ne_nil hne
  obtain ⟨hd, ht⟩ := List.ne_and_not_mem_of_not_mem_cons hslash
  rcases t with _ | ⟨e, t⟩
  · simp [split, Ne.symm hd, hc]
  · have he : e ≠ '/' := fun h => ht (h ▸ List.mem_cons_self)
    simp [split, Ne.symm hd, he]

omit hslash hne hc

theorem EndsInside.not_prefix (h : EndsInside base path) :
    ¬ components base <+: components path := by
  obtain ⟨front, piece, c, rest, rfl, rfl, hc, hfront, hslash, hne, hhere⟩ := h
  obtain ⟨more, k, cs, hmore, hk, hbody⟩ := exists_longer_piece hslash hne hc rest
  have hother : ∀ {k'}, component? piece = some k' → ¬ [k'] <+: k :: cs := by
    rintro k' hk' hprefix
    obtain ⟨rfl, -⟩ := List.cons_prefix_cons.mp hprefix
    exact hmore (List.self_eq_append_right.mp (component?_injective hk' hk))
  rcases hfront with rfl | hlast
  · rw [List.nil_append, components_of_split (split_goesOn hslash hne hc rest), hbody]
    by_cases hdot : piece = ['.']
    · subst hdot
      intro hprefix
      obtain ⟨rfl, -⟩ := List.cons_prefix_cons.mp hprefix
      rcases component?_eq_some hk with ⟨hup, -⟩ | hname
      · cases hup
      · cases hname
    · obtain ⟨k', hk'⟩ := Option.ne_none_iff_exists'.mp
        (mt component?_eq_none_iff.mp (not_or.mpr ⟨hne, hdot⟩))
      have hplain : split piece = (.plain, piece) := by
        unfold split
        split
        · simp at hslash
        · exact absurd rfl hdot
        · simp at hslash
        · rfl
      rw [components_of_split hplain, bodyComponents_of_not_mem hslash, hk']
      exact hother hk'
  · obtain ⟨f, rfl⟩ := List.getLast?_eq_some_iff.mp hlast
    obtain ⟨k', hk'⟩ := Option.ne_none_iff_exists'.mp (mt component?_eq_none_iff.mp
      (not_or.mpr ⟨hne, fun hdot => by simpa using hhere hdot⟩))
    obtain ⟨d, t, ht, hbase⟩ : ∃ d t, t ≠ [] ∧ f ++ ['/'] ++ piece = d :: t := by
      cases f with
      | nil => exact ⟨'/', piece, hne, rfl⟩
      | cons d f => exact ⟨d, f ++ ['/'] ++ piece, by simp, rfl⟩
    have hstart : (split (f ++ ['/'] ++ piece ++ c :: rest)).1 =
        (split (f ++ ['/'] ++ piece)).1 := by
      rw [hbase, split_append _ (Or.inl ht)]
    rw [components_eq, components_eq, hstart, List.prefix_append_right_inj,
      List.append_assoc f, List.append_assoc f, List.append_assoc ['/'], ← bodyComponents,
      ← bodyComponents, List.singleton_append, List.singleton_append, bodyComponents_append,
      bodyComponents_append, List.prefix_append_right_inj, bodyComponents_of_not_mem hslash, hk',
      hbody]
    exact hother hk'

end EndsInside

/-- A path seen from a root is the rest of its components, if those of the root begin them: joined
to the root it is the path again. Any other path stays as it is, also if its text begins with that
of the root. -/
theorem relativeTo_exact {root path : Text} (hroot : root ≠ []) (hpath : '\\' ∉ path) :
    (components root <+: components path →
      components path = components root ++ components (relativeTo root path) ∧
        (relativeTo root path).head? ≠ some '/' ∧
        same (join root (relativeTo root path)) path = true) ∧
    (¬ components root <+: components path → relativeTo root path = path) ∧
    (EndsInside root path → relativeTo root path = path) := by
  have houtside : ¬ components root <+: components path → relativeTo root path = path := by
    intro hprefix
    rw [relativeTo, stripBase?_of_not_prefix hroot hprefix, Option.getD_none,
      Text.replace_of_not_mem hpath]
  refine ⟨fun hprefix => ?_, houtside, fun h => houtside h.not_prefix⟩
  obtain ⟨rest, hstrip, hsplit, hcomponents, hsub⟩ := stripBase?_of_prefix hroot hprefix
  have hrest : relativeTo root path = rest := by
    rw [relativeTo, hstrip, Option.getD_some, Text.replace_of_not_mem fun h => hpath (hsub h)]
  have hrelative := isAbsolute_of_split hsplit
  rw [hrest, components_of_split hsplit, hcomponents]
  refine ⟨rfl, by simpa [isAbsolute] using hrelative, ?_⟩
  rw [same, components_join hroot hrelative, hcomponents, beq_self_eq_true]

/-- A root spelled in another way than in the path, and one that ends inside a name. -/
theorem relativeTo_exact_of_spellings :
    let root := "/w//p/./".toList
    let path := "/w/./p//Assets/A.cs/".toList
    let other := "/w/p/As".toList
    (root ≠ [] ∧ '\\' ∉ path ∧ components root <+: components path ∧
      components path = components root ++ components (relativeTo root path) ∧
      same (join root (relativeTo root path)) path = true) ∧
    other ≠ [] ∧ EndsInside other "/w/p/Assets".toList ∧
      relativeTo other "/w/p/Assets".toList = "/w/p/Assets".toList := by
  intro root path other
  have hprefix : components root <+: components path := by decide
  have hinside : EndsInside other "/w/p/Assets".toList :=
    ⟨"/w/p/".toList, "As".toList, 's', "ets".toList, by decide, by decide, by decide,
      Or.inr (by decide), by decide, by decide, by decide⟩
  have hroot : root ≠ [] := by decide
  have hpath : '\\' ∉ path := by decide
  have hother : other ≠ [] := by decide
  have hlonger : '\\' ∉ "/w/p/Assets".toList := by decide
  obtain ⟨hcomponents, -, hsame⟩ := (relativeTo_exact hroot hpath).1 hprefix
  obtain ⟨-, -, hends⟩ := relativeTo_exact hother hlonger
  exact ⟨⟨hroot, hpath, hprefix, hcomponents, hsame⟩, hother, hinside, hends hinside⟩

end Path

end SceneAudit
