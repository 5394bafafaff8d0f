import SceneAudit.Config.Exclusion
import SceneAudit.Proofs.Text.Occurrences

/-! # What exclusion patterns match

The pattern `**/D/**` speaks of whole names: it matches the paths with the names of `D` one after
another and something below them. In `S/**` and `**/S` the names at the open ends of `S` match
longer ones too.
-/

namespace SceneAudit

namespace Text

section Cut

variable {c : Char} {p s t : Text}

theorem startsWith_cons_of_ne {d : Char} (h : d ≠ c) : startsWith (c :: p) (d :: t) = false := by
  rw [startsWith, dropStart?, if_neg (Ne.symm h), Option.isSome_none]

theorem cutAt?_of_not_mem (h : c ∉ t) : cutAt? (c :: p) t = none := by
  induction t with
  | nil => rfl
  | cons d t ih =>
    obtain ⟨hd, ht⟩ := List.ne_and_not_mem_of_not_mem_cons h
    rw [cutAt?, dropStart?, if_neg hd, ih ht, Option.map_none]

theorem cutAt?_append (h : c ∉ s) : cutAt? (c :: p) (s ++ (c :: p ++ t)) = some (s, t) := by
  induction s with
  | nil => rw [List.nil_append, List.cons_append, cutAt?, ← List.cons_append, dropStart?_append]
  | cons d s ih =>
    obtain ⟨hd, hs⟩ := List.ne_and_not_mem_of_not_mem_cons h
    rw [List.cons_append, cutAt?, dropStart?, if_neg hd, ih hs, Option.map_some]

theorem eraseFrom_length (p s t : Text) : eraseFrom p s.length (s ++ t) = eraseFrom p 0 t := by
  induction s with
  | nil => rfl
  | cons d s ih => exact ih

theorem erase_append_self (t : Text) : erase (c :: p) (c :: p ++ t) = erase (c :: p) t := by
  have hstart : startsWith (c :: p) (c :: p ++ t) = true := startsWith_iff.mpr ⟨t, rfl⟩
  rw [List.cons_append] at hstart
  rw [erase, List.cons_append, eraseFrom, if_pos hstart]
  exact eraseFrom_length (c :: p) p t

theorem erase_append_of_not_mem (h : c ∉ s) (t : Text) :
    erase (c :: p) (s ++ t) = s ++ erase (c :: p) t := by
  unfold erase
  induction s with
  | nil => rfl
  | cons d s ih =>
    obtain ⟨hd, hs⟩ := List.ne_and_not_mem_of_not_mem_cons h
    rw [List.cons_append, eraseFrom, startsWith_cons_of_ne (Ne.symm hd), if_neg Bool.false_ne_true,
      ih hs, List.cons_append]

theorem erase_concat_of_not_mem {d : Char} (hcd : c ≠ d) (h : d ∉ s) :
    erase (c :: d :: p) (s ++ c :: d :: p) = s := by
  induction s with
  | nil =>
    have hself := erase_append_self (c := c) (p := d :: p) []
    rw [List.append_nil] at hself
    exact hself
  | cons e s ih =>
    obtain ⟨-, hs⟩ := List.ne_and_not_mem_of_not_mem_cons h
    have hstart : startsWith (c :: d :: p) (e :: (s ++ c :: d :: p)) = false := by
      by_cases hec : e = c
      · subst hec
        cases s with
        | nil => simp [startsWith, dropStart?, Ne.symm hcd]
        | cons f s => simp [startsWith, dropStart?, (List.ne_and_not_mem_of_not_mem_cons hs).1]
      · exact startsWith_cons_of_ne hec
    rw [List.cons_append, erase, eraseFrom, hstart, if_neg Bool.false_ne_true, ← erase, ih hs]

theorem dropWhile_of_head? {q : Char → Bool} (h : ∀ d, t.head? = some d → q d = false) :
    t.dropWhile q = t :=
  dropWhile_run (s := []) (fun _ hd => absurd hd List.not_mem_nil) h

theorem mem_joinWith {sep : Text} {ts : List Text} (h : c ∈ joinWith sep ts) :
    c ∈ sep ∨ ∃ t ∈ ts, c ∈ t := by
  fun_induction joinWith sep ts with
  | case1 => simp at h
  | case2 t => exact Or.inr ⟨t, by simp, h⟩
  | case3 t u ts ih =>
    rw [List.append_assoc, List.mem_append, List.mem_append] at h
    rcases h with h | h | h
    · exact Or.inr ⟨t, by simp, h⟩
    · exact Or.inl h
    · rcases ih h with hsep | ⟨v, hv, hc⟩
      · exact Or.inl hsep
      · exact Or.inr ⟨v, List.mem_cons_of_mem t hv, hc⟩

end Cut

end Text

namespace Exclusion

open Text

/-- The names of a path as patterns see it, where backslashes are slashes. -/
def pieces (path : Text) : List Text :=
  splitOn '/' (replace '\\' '/' path)

/-- Names that a pattern spells out: at least one, and none is empty or has a slash or a star. -/
structure Spelled (names : List Text) : Prop where
  ne_nil : names ≠ []
  name_ne_nil : [] ∉ names
  slash : ∀ n ∈ names, '/' ∉ n
  star : ∀ n ∈ names, '*' ∉ n

/-- Names with slashes between them. -/
def spell (names : List Text) : Text :=
  joinWith ['/'] names

namespace Spelled

variable {names : List Text} (h : Spelled names)

include h

theorem splitOn_spell : splitOn '/' (spell names) = names :=
  splitOn_joinWith h.slash h.ne_nil

theorem star_not_mem : '*' ∉ spell names := by
  intro hmem
  rcases mem_joinWith hmem with hsep | ⟨n, hn, hstar⟩
  · simp at hsep
  · exact h.star n hn hstar

theorem spell_ne_nil : spell names ≠ [] := by
  intro hnil
  have hsplit := h.splitOn_spell
  rw [hnil] at hsplit
  exact h.name_ne_nil (hsplit ▸ List.mem_singleton_self [])

theorem head?_spell : (spell names).head? ≠ some '/' := by
  intro hhead
  obtain ⟨t, ht⟩ := List.head?_eq_some_iff.mp hhead
  have hsplit := h.splitOn_spell
  rw [ht, splitOn_cons_sep] at hsplit
  exact h.name_ne_nil (hsplit ▸ List.mem_cons_self)

theorem getLast?_spell : (spell names).getLast? ≠ some '/' := by
  intro hlast
  obtain ⟨t, ht⟩ := List.getLast?_eq_some_iff.mp hlast
  have hsplit := h.splitOn_spell
  rw [ht, splitOn_append_sep] at hsplit
  exact h.name_ne_nil (hsplit ▸ List.mem_append_right _ (List.mem_singleton_self []))

theorem dropWhile_spell : (spell names).dropWhile (· = '/') = spell names := by
  refine dropWhile_of_head? fun c hc => decide_eq_false ?_
  rintro rfl
  exact h.head?_spell hc

theorem dropEnd_spell : dropEnd (· = '/') (spell names) = spell names := by
  have hdrop : (spell names).reverse.dropWhile (· = '/') = (spell names).reverse := by
    refine dropWhile_of_head? fun c hc => decide_eq_false ?_
    rintro rfl
    exact h.getLast?_spell (List.head?_reverse ▸ hc)
  rw [dropEnd, hdrop, List.reverse_reverse]

theorem directoryOf_spell :
    directoryOf ("**/".toList ++ (spell names ++ "/**".toList)) = spell names := by
  have hfront : erase "**/".toList ("**/".toList ++ (spell names ++ "/**".toList)) =
      spell names ++ "/**".toList := by
    refine (erase_append_self _).trans ((erase_append_of_not_mem h.star_not_mem _).trans ?_)
    rfl
  have hback : erase "/**".toList (spell names ++ "/**".toList) = spell names :=
    erase_concat_of_not_mem (by decide) h.star_not_mem
  rw [directoryOf, hfront, hback, trimSlashes, h.dropWhile_spell, h.dropEnd_spell]

theorem head?_spell_append (t : Text) : (spell names ++ t).head? ≠ some '*' := by
  obtain ⟨c, s, hs⟩ := List.exists_cons_of_ne_nil h.spell_ne_nil
  rw [hs, List.cons_append, List.head?_cons, Ne, Option.some.injEq]
  rintro rfl
  exact h.star_not_mem (hs ▸ List.mem_cons_self)

theorem matchesPattern_within (path : Text) :
    matchesPattern ("**/".toList ++ (spell names ++ "/**".toList)) path =
      underDirectory (spell names) path := by
  have hstart : startsWith "**/".toList ("**/".toList ++ (spell names ++ "/**".toList)) = true :=
    startsWith_iff.mpr ⟨_, rfl⟩
  have hend : endsWith "/**".toList ("**/".toList ++ (spell names ++ "/**".toList)) = true :=
    endsWith_iff_suffix.mpr ⟨"**/".toList ++ spell names, List.append_assoc ..⟩
  rw [matchesPattern, if_neg (by simp), if_neg (by simp), hstart, hend, Bool.and_true,
    if_pos rfl, h.directoryOf_spell]

theorem halves?_below : halves? (spell names ++ "/**".toList) = some (spell names, []) := by
  have hstar : '*' ∉ spell names ++ ['/'] := by simp [h.star_not_mem]
  have hcut : cutAt? anyDepth (spell names ++ "/**".toList) = some (spell names ++ ['/'], []) := by
    have hmark := cutAt?_append (p := ['*']) (t := []) hstar
    rwa [List.append_assoc] at hmark
  have hdrop : dropEnd (· = '/') (spell names ++ ['/']) = spell names := by
    rw [dropEnd, List.reverse_concat, List.dropWhile_cons_of_pos (by decide), ← dropEnd,
      h.dropEnd_spell]
  rw [halves?, hcut]
  simp only [cutAt?, anyDepth, List.isEmpty_cons, Bool.false_eq_true, if_false, hdrop,
    List.dropWhile_nil]

theorem halves?_above : halves? ("**/".toList ++ spell names) = some ([], spell names) := by
  have hcut : cutAt? anyDepth ("**/".toList ++ spell names) = some ([], '/' :: spell names) :=
    cutAt?_append (p := ['*']) (s := []) List.not_mem_nil
  have hnone : cutAt? anyDepth ('/' :: spell names) = none :=
    cutAt?_of_not_mem (by simp [h.star_not_mem])
  rw [halves?, hcut]
  simp only [hnone, List.dropWhile_cons_of_pos, decide_true, h.dropWhile_spell]
  rfl

theorem matchesPattern_below (path : Text) :
    matchesPattern (spell names ++ "/**".toList) path = matchesHalves (spell names) [] path := by
  have hstart : startsWith "**/".toList (spell names ++ "/**".toList) = false := by
    rw [Bool.eq_false_iff, Ne, startsWith_iff]
    rintro ⟨t, ht⟩
    exact h.head?_spell_append "/**".toList (by rw [ht]; rfl)
  rw [matchesPattern, if_neg (fun hhead => h.head?_spell_append _ hhead.1), if_neg (by simp),
    hstart, Bool.false_and, if_neg Bool.false_ne_true, h.halves?_below]

theorem matchesPattern_above (path : Text) :
    matchesPattern ("**/".toList ++ spell names) path = matchesHalves [] (spell names) path := by
  have hend : endsWith "/**".toList ("**/".toList ++ spell names) = false := by
    rw [Bool.eq_false_iff, Ne, endsWith_iff_suffix]
    rintro ⟨s, hs⟩
    have hlast := congrArg List.getLast? hs
    rw [List.getLast?_append_of_ne_nil _ h.spell_ne_nil,
      List.getLast?_append_of_ne_nil _ (by decide)] at hlast
    exact h.star_not_mem (List.mem_of_getLast? (hlast.symm.trans (by decide)))
  rw [matchesPattern, if_neg (by simp), if_neg (by simp), hend, Bool.and_false,
    if_neg Bool.false_ne_true, h.halves?_above]

end Spelled

section Matches

variable {names : List Text} {path : Text}

theorem pieces_spell (hslash : ∀ n ∈ names, '/' ∉ n) (hback : ∀ n ∈ names, '\\' ∉ n)
    (hne : names ≠ []) : pieces (spell names) = names := by
  have hreplace : replace '\\' '/' (spell names) = spell names := by
    refine replace_of_not_mem fun hmem => ?_
    rcases mem_joinWith hmem with hsep | ⟨n, hn, hc⟩
    · simp at hsep
    · exact hback n hn hc
  rw [pieces, hreplace, spell, splitOn_joinWith hslash hne]

theorem excludes_singleton (pattern path : Text) :
    excludes [pattern] path = matchesPattern pattern (replace '\\' '/' path) := by
  rw [excludes, List.any_cons, List.any_nil, Bool.or_false]

theorem excludes_within_iff (h : Spelled names) :
    excludes ["**/".toList ++ (spell names ++ "/**".toList)] path = true ↔
      ∃ front below, below ≠ [] ∧ pieces path = front ++ names ++ below := by
  have hruns := infix_between_iff_pieces '/' (p := spell names)
    (t := replace '\\' '/' path)
  rw [h.splitOn_spell] at hruns
  rw [excludes_singleton, h.matchesPattern_within, underDirectory, Bool.or_eq_true,
    occursIn_iff_infix, startsWith_iff_prefix, hruns]
  rfl

/-- The pattern `S/**` matches the names of `S` in front, the last of which may go on, and anywhere
above something, the first of which may begin earlier. -/
theorem excludes_below_iff (h : Spelled names) :
    excludes [spell names ++ "/**".toList] path = true ↔
      (∃ run rest, LongerBehind names run ∧ pieces path = run ++ rest) ∨
        ∃ front run rest, LongerInFront names run ∧ rest ≠ [] ∧
          pieces path = front ++ run ++ rest := by
  have hprefix := prefix_iff_pieces '/' (p := spell names)
    (t := replace '\\' '/' path)
  have hinfix := infix_concat_iff_pieces '/' (p := spell names)
    (t := replace '\\' '/' path)
  rw [h.splitOn_spell] at hprefix hinfix
  rw [excludes_singleton, h.matchesPattern_below, matchesHalves,
    if_neg (fun hnil => h.spell_ne_nil hnil.1), if_neg h.spell_ne_nil, if_pos rfl,
    Bool.or_eq_true, startsWith_iff_prefix, occursIn_iff_infix, hprefix, hinfix]
  rfl

/-- The pattern `**/S` matches the names of `S` at the end, the first of which may begin earlier,
and anywhere below something, the last of which may go on. -/
theorem excludes_above_iff (h : Spelled names) :
    excludes ["**/".toList ++ spell names] path = true ↔
      (∃ front run, LongerInFront names run ∧ pieces path = front ++ run) ∨
        ∃ front run rest, front ≠ [] ∧ LongerBehind names run ∧
          pieces path = front ++ run ++ rest := by
  have hsuffix := suffix_iff_pieces '/' (p := spell names)
    (t := replace '\\' '/' path)
  have hinfix := infix_cons_iff_pieces '/' (p := spell names)
    (t := replace '\\' '/' path)
  rw [h.splitOn_spell] at hsuffix hinfix
  rw [excludes_singleton, h.matchesPattern_above, matchesHalves,
    if_neg (fun hnil => h.spell_ne_nil hnil.2), if_pos rfl, Bool.or_eq_true,
    endsWith_iff_suffix, occursIn_iff_infix, hsuffix, hinfix]
  rfl

end Matches

section Names

/-- The pattern `**/D/**` leaves out exactly the paths with the names of `D` one after another and
something below them. A path without one of these names is kept, also if it has longer names that
contain it. -/
theorem within_excludes_whole_names {dir path : List Text} (hdir : Spelled dir)
    (hslash : ∀ n ∈ path, '/' ∉ n) (hback : ∀ n ∈ path, '\\' ∉ n) :
    (excludes ["**/".toList ++ (spell dir ++ "/**".toList)] (spell path) = true ↔
      ∃ front below, below ≠ [] ∧ path = front ++ dir ++ below) ∧
    ∀ name ∈ dir, name ∉ path →
      excludes ["**/".toList ++ (spell dir ++ "/**".toList)] (spell path) = false := by
  have hwhole : excludes ["**/".toList ++ (spell dir ++ "/**".toList)] (spell path) = true ↔
      ∃ front below, below ≠ [] ∧ path = front ++ dir ++ below := by
    rw [excludes_within_iff hdir]
    by_cases hpath : path = []
    · have hshort : ∀ {ns : List Text}, ns.length ≤ 1 →
          ¬ ∃ front below, below ≠ [] ∧ ns = front ++ dir ++ below := by
        rintro _ hle ⟨front, below, hbelow, rfl⟩
        have hpos := List.length_pos_of_ne_nil hbelow
        have hdirpos := List.length_pos_of_ne_nil hdir.ne_nil
        simp only [List.length_append] at hle
        omega
      exact iff_of_false (hshort (by rw [hpath]; decide)) (hshort (by simp [hpath]))
    · rw [pieces_spell hslash hback hpath]
  refine ⟨hwhole, fun name hname hout => ?_⟩
  rw [← Bool.not_eq_true, hwhole]
  rintro ⟨front, below, -, rfl⟩
  exact hout (by simp [hname])

/-- A directory of two names below another one, and one that only contains the text of a name. -/
theorem within_excludes_whole_names_of_two :
    let dir := ["Library".toList, "Cache".toList]
    let path := ["Assets".toList, "Library".toList, "Cache".toList, "a.cs".toList]
    let other := ["MyLibrary".toList, "LibraryCache".toList, "Cache".toList, "a.cs".toList]
    Spelled dir ∧ (∀ n ∈ path, '/' ∉ n ∧ '\\' ∉ n) ∧
      excludes ["**/".toList ++ (spell dir ++ "/**".toList)] (spell path) = true ∧
      excludes ["**/".toList ++ (spell dir ++ "/**".toList)] (spell other) = false := by
  intro dir path other
  have hdir : Spelled dir := ⟨by decide, by decide, by decide, by decide⟩
  have hpath : ∀ n ∈ path, '/' ∉ n ∧ '\\' ∉ n := by decide
  have hother : ∀ n ∈ other, '/' ∉ n ∧ '\\' ∉ n := by decide
  obtain ⟨hiff, -⟩ := within_excludes_whole_names hdir (fun n hn => (hpath n hn).1)
    fun n hn => (hpath n hn).2
  obtain ⟨-, hkept⟩ := within_excludes_whole_names hdir (fun n hn => (hother n hn).1)
    fun n hn => (hother n hn).2
  exact ⟨hdir, hpath, hiff.mpr ⟨["Assets".toList], ["a.cs".toList], by decide, rfl⟩,
    hkept "Library".toList (by decide) (by decide)⟩

/-- The patterns `S/**` and `**/S` match the names of `S` one after another, where a name at an open
end may be longer: the last one of a run at the front (or, for `**/S`, below something), the first
one of a run above something (or, for `**/S`, at the end). Only in a path without such longer names
are all names of `S` whole. -/
theorem half_open_excludes {names : List Text} (h : Spelled names) (path : Text) :
    (excludes [spell names ++ "/**".toList] path = true ↔
      (∃ run rest, LongerBehind names run ∧ pieces path = run ++ rest) ∨
        ∃ front run rest, LongerInFront names run ∧ rest ≠ [] ∧
          pieces path = front ++ run ++ rest) ∧
    (excludes ["**/".toList ++ spell names] path = true ↔
      (∃ front run, LongerInFront names run ∧ pieces path = front ++ run) ∨
        ∃ front run rest, front ≠ [] ∧ LongerBehind names run ∧
          pieces path = front ++ run ++ rest) ∧
    ((∀ piece ∈ pieces path, (∀ last ∈ names.getLast?, last <+: piece → piece = last) ∧
        ∀ first ∈ names.head?, first <:+ piece → piece = first) →
      excludes [spell names ++ "/**".toList] path = true ∨
        excludes ["**/".toList ++ spell names] path = true → names <:+: pieces path) := by
  refine ⟨excludes_below_iff h, excludes_above_iff h, fun hexact hexcluded => ?_⟩
  have hbehind : ∀ front {run rest}, LongerBehind names run →
      pieces path = front ++ run ++ rest → names <:+: pieces path := by
    intro front run rest hrun hpieces
    obtain rfl := hrun.eq_of_exact fun piece hpiece => (hexact piece (by simp [hpieces, hpiece])).1
    exact ⟨front, rest, hpieces.symm⟩
  have hfront : ∀ {front run} rest, LongerInFront names run →
      pieces path = front ++ run ++ rest → names <:+: pieces path := by
    intro front run rest hrun hpieces
    obtain rfl := hrun.eq_of_exact fun piece hpiece => (hexact piece (by simp [hpieces, hpiece])).2
    exact ⟨front, rest, hpieces.symm⟩
  rw [excludes_below_iff h, excludes_above_iff h] at hexcluded
  rcases hexcluded with (⟨run, rest, hrun, hp⟩ | ⟨front, run, rest, hrun, -, hp⟩) |
    (⟨front, run, hrun, hp⟩ | ⟨front, run, rest, -, hrun, hp⟩)
  · exact hbehind [] hrun hp
  · exact hfront rest hrun hp
  · exact hfront [] hrun (by rw [hp, List.append_nil])
  · exact hbehind front hrun hp

/-- A sibling whose name goes on is matched along with the directory itself. -/
theorem half_open_excludes_of_sibling :
    let names := ["Assets".toList, "Plugins".toList]
    Spelled names ∧
      excludes [spell names ++ "/**".toList] "Assets/PluginsExtra/a.cs".toList = true ∧
      ["Assets".toList, "Plugins".toList] <:+: pieces "Assets/Plugins/a.cs".toList := by
  intro names
  have h : Spelled names := ⟨by decide, by decide, by decide, by decide⟩
  obtain ⟨hbelow, -⟩ := half_open_excludes h "Assets/PluginsExtra/a.cs".toList
  obtain ⟨hbelow', -, hexact⟩ := half_open_excludes h "Assets/Plugins/a.cs".toList
  refine ⟨h, hbelow.mpr (Or.inl ⟨["Assets".toList, "PluginsExtra".toList], ["a.cs".toList],
    ⟨["Assets".toList], "Plugins".toList, "Extra".toList, rfl, rfl⟩, by decide⟩), ?_⟩
  exact hexact (by decide) (Or.inl (hbelow'.mpr (Or.inl ⟨names, ["a.cs".toList],
    ⟨["Assets".toList], "Plugins".toList, [], rfl, rfl⟩, by decide⟩)))

/-- A directory whose name begins with that of the pattern is matched, and so is one whose name ends
with it. -/
theorem not_half_open_excludes_whole_names :
    (¬ ∀ names path : List Text, Spelled names → (∀ n ∈ path, n ≠ [] ∧ '/' ∉ n ∧ '\\' ∉ n) →
      excludes [spell names ++ "/**".toList] (spell path) = true → names <:+: path) ∧
    ¬ ∀ names path : List Text, Spelled names → (∀ n ∈ path, n ≠ [] ∧ '/' ∉ n ∧ '\\' ∉ n) →
      excludes ["**/".toList ++ spell names] (spell path) = true → names <:+: path := by
  have hplugins : Spelled ["Plugins".toList] := ⟨by decide, by decide, by decide, by decide⟩
  constructor
  · intro h
    have hrun := h ["Plugins".toList] ["PluginsExtra".toList, "a.cs".toList] hplugins (by decide)
      (by decide)
    exact absurd hrun (by decide)
  · intro h
    have hrun := h ["Plugins".toList] ["Assets".toList, "MyPlugins".toList] hplugins (by decide)
      (by decide)
    exact absurd hrun (by decide)

end Names

end Exclusion

end SceneAudit
