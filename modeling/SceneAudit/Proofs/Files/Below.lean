import SceneAudit.Proofs.Discovery.Order
import SceneAudit.Proofs.Files.Making

/-! # Paths below a base

A relative path that is joined to a base stands behind it: its components follow those of the base,
two such paths compare as they do without the base, and seen from the base the path is itself, but
for spelling.
-/

namespace SceneAudit.Path

/-- A relative path of which no piece leads up. -/
structure Inner (r : Text) : Prop where
  relative : isAbsolute r = false
  down : ['.', '.'] ∉ Text.splitOn '/' r

instance : DecidablePred Inner := fun r =>
  decidable_of_iff (isAbsolute r = false ∧ ['.', '.'] ∉ Text.splitOn '/' r)
    ⟨fun h => ⟨h.1, h.2⟩, fun h => ⟨h.1, h.2⟩⟩

section Split

variable {base r : Text}

theorem join_eq (hr : isAbsolute r = false) : join base r =
    base ++ if base = [] ∨ base.getLast? = some '/' then r else '/' :: r := by
  rw [join, hr, if_neg Bool.false_ne_true]
  split <;> rfl

theorem split_append {c : Char} {t : Text} (u : Text) (h : t ≠ [] ∨ u.head? = some '/') :
    split (c :: t ++ u) = ((split (c :: t)).1, (split (c :: t)).2 ++ u) := by
  by_cases hroot : c = '/'
  · subst hroot
    rfl
  by_cases hdot : c = '.'
  · subst hdot
    rcases t with _ | ⟨d, t⟩
    · obtain ⟨v, rfl⟩ := List.head?_eq_some_iff.mp (h.resolve_left (by simp))
      rfl
    · by_cases hslash : d = '/'
      · subst hslash
        rfl
      · simp [split, hslash]
  · simp [split, hroot, hdot]

theorem split_join (hbase : base ≠ []) (hr : isAbsolute r = false) :
    split (join base r) = ((split base).1,
      (split base).2 ++ if base.getLast? = some '/' then r else '/' :: r) := by
  obtain ⟨c, t, rfl⟩ := List.exists_cons_of_ne_nil hbase
  rw [join_eq hr]
  simp only [hbase, false_or]
  by_cases hlast : (c :: t).getLast? = some '/'
  · rw [if_pos hlast]
    rcases t with _ | ⟨d, t⟩
    · obtain rfl : c = '/' := by simpa using hlast
      rfl
    · exact split_append r (.inl (List.cons_ne_nil d t))
  · rw [if_neg hlast]
    exact split_append _ (.inr rfl)

theorem bodyComponents_join (base : Text) (hr : isAbsolute r = false) :
    bodyComponents (join base r) = bodyComponents base ++ bodyComponents r := by
  obtain ⟨ps, hjoin, hpieces⟩ := FileTree.exists_splitOn_join base hr
  have hbody : (Text.splitOn '/' base).filterMap component? = ps.filterMap component? := by
    rcases hpieces with hpieces | hpieces
    · rw [hpieces]
    · simp [hpieces, component?]
  rw [bodyComponents, bodyComponents, hjoin, hbody, List.filterMap_append, bodyComponents]

theorem components_join (hbase : base ≠ []) (hr : isAbsolute r = false) :
    components (join base r) = components base ++ bodyComponents r := by
  have hbody := bodyComponents_join base hr
  rw [bodyComponents, bodyComponents] at hbody
  rw [components_eq, components_eq, split_join hbase hr, hbody, List.append_assoc]

end Split

section Compare

variable {base r s : Text}

theorem compareComponents_append (cs as bs : List Component) :
    compareComponents (cs ++ as) (cs ++ bs) = compareComponents as bs := by
  induction cs with
  | nil => rfl
  | cons c cs ih =>
    have hself : Component.compare c c = .eq := Std.ReflCmp.compare_self
    rw [List.cons_append, List.cons_append, compareComponents, hself, ih]

variable (hbase : base ≠ []) (hr : isAbsolute r = false) (hs : isAbsolute s = false)

include hbase hr hs

theorem compare_join : compare (join base r) (join base s) =
    compareComponents (bodyComponents r) (bodyComponents s) := by
  rw [compare, components_join hbase hr, components_join hbase hs, compareComponents_append]

theorem same_join :
    same (join base r) (join base s) = (bodyComponents r == bodyComponents s) := by
  rw [same, components_join hbase hr, components_join hbase hs, Bool.eq_iff_iff, beq_iff_eq,
    beq_iff_eq, List.append_cancel_left_eq]

end Compare

section Strip

theorem eq_or_exists_slash (t : Text) :
    '/' ∉ t ∨ ∃ piece rest, '/' ∉ piece ∧ t = piece ++ '/' :: rest := by
  induction t with
  | nil => exact .inl List.not_mem_nil
  | cons c t ih =>
    by_cases hc : c = '/'
    · exact .inr ⟨[], t, List.not_mem_nil, by rw [hc, List.nil_append]⟩
    · rcases ih with ih | ⟨piece, rest, hpiece, rfl⟩
      · exact .inl (List.not_mem_cons_of_ne_of_not_mem (Ne.symm hc) ih)
      · exact .inr ⟨c :: piece, rest, List.not_mem_cons_of_ne_of_not_mem (Ne.symm hc) hpiece, rfl⟩

/-- What follows the first components of a text, without slashes and `.` pieces in front. -/
def behind (n : Nat) (t : Text) : Text :=
  trimFront (dropComponents n t)

theorem behind_slash (n : Nat) (t : Text) : behind n ('/' :: t) = behind n t := by
  cases n <;> rfl

theorem trimFront_of_component {piece : Text} (hslash : '/' ∉ piece)
    (h : component? piece ≠ none) (t : Text) :
    trimFront (piece ++ '/' :: t) = piece ++ '/' :: t := by
  rcases piece with _ | ⟨c, piece⟩
  · exact absurd rfl h
  obtain ⟨hc, hpiece⟩ := List.ne_and_not_mem_of_not_mem_cons hslash
  by_cases hdot : c = '.'
  · subst hdot
    rcases piece with _ | ⟨d, piece⟩
    · exact absurd rfl h
    · have hd : d ≠ '/' := fun heq => hpiece (heq ▸ List.mem_cons_self)
      simp [trimFront, hd]
  · simp [trimFront, Ne.symm hc, hdot]

theorem dropWhile_piece {piece : Text} (hslash : '/' ∉ piece) (t : Text) :
    (piece ++ '/' :: t).dropWhile (· ≠ '/') = '/' :: t := by
  have hall : ∀ c ∈ piece, decide (c ≠ '/') = true := by
    rintro c hc
    exact decide_eq_true fun heq => hslash (heq ▸ hc)
  rw [List.dropWhile_append_of_pos hall]
  rfl

theorem component?_eq_none_iff {piece : Text} :
    component? piece = none ↔ piece = [] ∨ piece = ['.'] := by
  unfold component?
  split
  · exact iff_of_true rfl ‹_›
  · split <;> simp [*]

theorem behind_piece {piece : Text} (hslash : '/' ∉ piece) (n : Nat) (t : Text) :
    behind ((component? piece).toList.length + n) (piece ++ '/' :: t) = behind n t := by
  cases hcomponent : component? piece with
  | none =>
    rw [Option.toList_none, List.length_nil, Nat.zero_add]
    rcases component?_eq_none_iff.mp hcomponent with rfl | rfl
    · exact behind_slash n t
    · cases n <;> rfl
  | some c =>
    have hkeep := trimFront_of_component hslash (by simp [hcomponent]) t
    rw [Option.toList_some, List.length_singleton, Nat.add_comm, behind, dropComponents, hkeep,
      dropWhile_piece hslash, ← behind, behind_slash]

theorem bodyComponents_append (b r : Text) :
    bodyComponents (b ++ '/' :: r) = bodyComponents b ++ bodyComponents r := by
  rw [bodyComponents, Text.splitOn_append_sep, List.filterMap_append, bodyComponents,
    bodyComponents]

theorem bodyComponents_of_not_mem {piece : Text} (hslash : '/' ∉ piece) :
    bodyComponents piece = (component? piece).toList := by
  rw [bodyComponents, Text.splitOn_of_not_mem hslash]
  cases hcomponent : component? piece <;> simp [hcomponent]

theorem behind_append (b r : Text) :
    behind (bodyComponents b).length (b ++ '/' :: r) = trimFront r := by
  induction hn : b.length using Nat.strong_induction_on generalizing b with
  | _ n ih =>
    rcases eq_or_exists_slash b with hslash | ⟨piece, rest, hslash, rfl⟩
    · rw [bodyComponents_of_not_mem hslash, ← Nat.add_zero (List.length _), behind_piece hslash]
      rfl
    · rw [bodyComponents_append, bodyComponents_of_not_mem hslash, List.length_append,
        List.append_assoc, List.cons_append, behind_piece hslash]
      exact ih rest.length (by simp [← hn]; omega) rest rfl

theorem components_ne_nil {base : Text} (hbase : base ≠ []) : components base ≠ [] := by
  unfold components
  fun_cases split base with
  | case1 | case2 | case3 => simp [startComponents]
  | case4 _ hroot hhere hbelow =>
    have hcomponent : ∀ piece, piece ≠ [] → piece ≠ ['.'] → (component? piece).toList ≠ [] := by
      intro piece hnil hdot
      rw [Ne, Option.toList_eq_nil_iff, component?_eq_none_iff]
      exact not_or.mpr ⟨hnil, hdot⟩
    rw [startComponents, List.nil_append]
    rcases eq_or_exists_slash base with hslash | ⟨piece, rest, hslash, rfl⟩
    · rw [bodyComponents_of_not_mem hslash]
      exact hcomponent base hbase hhere
    · have hnil : piece ≠ [] := fun h => hroot rest (by rw [h]; rfl)
      have hdot : piece ≠ ['.'] := fun h => hbelow rest (by rw [h]; rfl)
      rw [bodyComponents_append, bodyComponents_of_not_mem hslash]
      exact fun h => hcomponent piece hnil hdot (List.append_eq_nil_iff.mp h).1

variable {base r : Text}

theorem body_join (base r : Text) :
    let body := (split base).2 ++ if base.getLast? = some '/' then r else '/' :: r
    bodyComponents body = bodyComponents (split base).2 ++ bodyComponents r ∧
      behind (bodyComponents (split base).2).length body = trimFront r := by
  intro body
  have hsplit : base = startText (split base).1 ++ (split base).2 := startText_append_of_split rfl
  by_cases hlast : base.getLast? = some '/'
  · have hbody : body = (split base).2 ++ r := by simp only [body, hlast, if_true]
    rcases List.eq_nil_or_concat (split base).2 with hnil | ⟨b, c, hconcat⟩
    · rw [hbody, hnil]
      exact ⟨rfl, rfl⟩
    · rw [List.concat_eq_append] at hconcat
      obtain rfl : c = '/' := by
        rw [hsplit, hconcat, ← List.append_assoc, List.getLast?_concat] at hlast
        exact Option.some.inj hlast
      have hempty : bodyComponents (b ++ ['/']) = bodyComponents b := by
        rw [bodyComponents_append]
        exact List.append_nil _
      rw [hbody, hconcat, hempty, List.append_assoc, List.singleton_append]
      exact ⟨bodyComponents_append b r, behind_append b r⟩
  · have hbody : body = (split base).2 ++ '/' :: r := by simp only [body, hlast, if_false]
    rw [hbody]
    exact ⟨bodyComponents_append _ r, behind_append _ r⟩

variable (hbase : base ≠ []) (hr : isAbsolute r = false)

include hbase hr

/-- Seen from its base, a joined path is what was joined, without slashes and `.` pieces at its
ends. -/
theorem stripBase?_join : stripBase? base (join base r) = some (trimBack (trimFront r)) := by
  obtain ⟨hcomponents, hbehind⟩ := body_join base r
  have hne := components_ne_nil hbase
  have hfront : (bodyComponents (split base).2).isPrefixOf
      (bodyComponents (split base).2 ++ bodyComponents r) = true :=
    List.isPrefixOf_iff_prefix.mpr (List.prefix_append _ _)
  rw [stripBase?, split_join hbase hr]
  rw [components] at hne ⊢
  rw [← hcomponents] at hfront
  generalize (split base).2 ++ _ = body at hfront hbehind ⊢
  generalize (split base).1 = start, (split base).2 = b at hfront hbehind hne ⊢
  cases start with
  | root => simp only [startComponents, List.singleton_append, hfront, true_and, if_true, ← hbehind,
      behind]
  | here => simp only [startComponents, List.singleton_append, hfront, true_and, if_true, ← hbehind,
      behind]
  | plain =>
    obtain ⟨first, others, hcons⟩ := List.exists_cons_of_ne_nil hne
    rw [startComponents, List.nil_append] at hcons ⊢
    rw [hcons] at hfront hbehind ⊢
    simp only [hfront, if_true, ← hbehind, behind, List.length_cons]

theorem relativeTo_join : relativeTo base (join base r) =
    Text.replace '\\' '/' (trimBack (trimFront r)) := by
  rw [relativeTo, stripBase?_join hbase hr, Option.getD_some]

end Strip

section Join

variable {base d r : Text}

theorem exists_splitOn_eq (base : Text) : ∃ ps, ∀ r, isAbsolute r = false →
    Text.splitOn '/' (join base r) = ps ++ Text.splitOn '/' r := by
  by_cases hlast : base = [] ∨ base.getLast? = some '/'
  · rcases hlast with rfl | hlast
    · exact ⟨[], fun r hr => by rw [join_eq hr]; rfl⟩
    · obtain ⟨b, rfl⟩ := List.getLast?_eq_some_iff.mp hlast
      refine ⟨Text.splitOn '/' b, fun r hr => ?_⟩
      rw [join_eq hr, if_pos (.inr hlast), List.append_assoc, List.singleton_append,
        Text.splitOn_append_sep]
  · refine ⟨Text.splitOn '/' base, fun r hr => ?_⟩
    rw [join_eq hr, if_neg hlast, Text.splitOn_append_sep]

theorem isAbsolute_join (hd : isAbsolute d = false) (hr : isAbsolute r = false) :
    isAbsolute (join d r) = false := by
  rw [join_eq hr]
  cases d with
  | nil => simpa using hr
  | cons c d => exact hd

theorem join_join (hd : isAbsolute d = false) (hr : isAbsolute r = false) :
    join (join base d) r = join base (join d r) := by
  rw [join_eq hr, join_eq (isAbsolute_join hd hr), join_eq hd, join_eq hr]
  rcases d with _ | ⟨c, d⟩
  · by_cases hlast : base = [] ∨ base.getLast? = some '/' <;> simp [hlast]
  · by_cases hlast : base = [] ∨ base.getLast? = some '/' <;> simp [hlast]

theorem Inner.join (hd : Inner d) (hr : Inner r) : Inner (join d r) := by
  refine ⟨isAbsolute_join hd.relative hr.relative, ?_⟩
  obtain ⟨ps, hsplit, hbase⟩ := FileTree.exists_splitOn_join d hr.relative
  rw [hsplit, List.mem_append, not_or]
  refine ⟨fun hmem => hd.down ?_, hr.down⟩
  rcases hbase with hbase | hbase <;> simp [hbase, hmem]

theorem inner_of_isName (h : FileTree.IsName r) : Inner r := by
  refine ⟨h.relative, ?_⟩
  rw [Text.splitOn_of_not_mem h.slash, List.mem_singleton]
  exact h.ne_up.symm

end Join

end SceneAudit.Path
