import Mathlib.Data.List.Induction
import SceneAudit.Proofs.Files.Locate
import SceneAudit.Proofs.Lookup

/-! # Well-formed file trees

In a well-formed tree no location is listed twice, everything stands in a directory, and names are
such as a file system has them. Reading the files of a disk into a tree, making directories and
writing files keep a tree well-formed, and a file is written where its path leads.
-/

namespace SceneAudit.FileTree

/-- Text that can name an entry of a directory. -/
structure IsName (name : Text) : Prop where
  ne_nil : name ≠ []
  ne_here : name ≠ ['.']
  ne_up : name ≠ ['.', '.']
  slash : '/' ∉ name
  nul : '\x00' ∉ name
  short : isTooLong name = false

instance : DecidablePred IsName := fun name =>
  decidable_of_iff (name ≠ [] ∧ name ≠ ['.'] ∧ name ≠ ['.', '.'] ∧ '/' ∉ name ∧ '\x00' ∉ name ∧
      isTooLong name = false)
    ⟨fun ⟨h₁, h₂, h₃, h₄, h₅, h₆⟩ => ⟨h₁, h₂, h₃, h₄, h₅, h₆⟩,
      fun ⟨h₁, h₂, h₃, h₄, h₅, h₆⟩ => ⟨h₁, h₂, h₃, h₄, h₅, h₆⟩⟩

theorem IsName.enter {name : Text} (h : IsName name) (loc : Location) :
    enter loc name = loc ++ [name] := by
  simp [FileTree.enter, Path.component?, h.ne_nil, h.ne_here, h.ne_up, move]

/-- The listed entries make up a tree. -/
structure WellFormed (tree : FileTree) : Prop where
  nodup : (tree.entries.map Prod.fst).Nodup
  parent : ∀ e ∈ tree.entries, tree.entryAt e.1.dropLast = some .directory
  names : ∀ e ∈ tree.entries, ∀ name ∈ e.1, IsName name

instance : DecidablePred WellFormed := fun tree =>
  decidable_of_iff ((tree.entries.map Prod.fst).Nodup ∧
      (∀ e ∈ tree.entries, tree.entryAt e.1.dropLast = some .directory) ∧
      ∀ e ∈ tree.entries, ∀ name ∈ e.1, IsName name)
    ⟨fun ⟨h₁, h₂, h₃⟩ => ⟨h₁, h₂, h₃⟩, fun ⟨h₁, h₂, h₃⟩ => ⟨h₁, h₂, h₃⟩⟩

variable {tree tree' : FileTree} {loc dir : Location} {name path : Text} {entry : Entry}

theorem entryAt_of_ne_nil (h : loc ≠ []) : tree.entryAt loc = tree.entries.lookup loc := by
  cases loc with
  | nil => exact absurd rfl h
  | cons n ns => rfl

theorem mem_of_entryAt (h : tree.entryAt loc = some entry) (hne : loc ≠ []) :
    (loc, entry) ∈ tree.entries :=
  Lookup.mem_of_lookup (entryAt_of_ne_nil hne ▸ h)

namespace WellFormed

theorem entryAt_of_mem (h : tree.WellFormed) (hmem : (loc, entry) ∈ tree.entries)
    (hne : loc ≠ []) : tree.entryAt loc = some entry := by
  rw [entryAt_of_ne_nil hne]
  exact (Lookup.lookup_eq_some_iff h.nodup).mpr hmem

theorem nodup_filterMap {α β : Type} (h : tree.WellFormed)
    {take : Location × Entry → Option (α × β)} (place : α → Location)
    (hplace : ∀ e b, take e = some b → e.1 = place b.1) :
    ((tree.entries.filterMap take).map Prod.fst).Nodup := by
  rw [List.Nodup, List.pairwise_map, List.pairwise_filterMap]
  refine (List.pairwise_map.mp h.nodup).imp ?_
  intro e e' hne b hb b' hb' heq
  exact hne ((hplace e b hb).trans (heq ▸ (hplace e' b' hb').symm))

theorem names_of_entryAt (h : tree.WellFormed) (hentry : tree.entryAt loc = some entry) :
    ∀ name ∈ loc, IsName name := by
  by_cases hne : loc = []
  · simp [hne]
  · exact h.names _ (mem_of_entryAt hentry hne)

theorem entryAt_prefix (h : tree.WellFormed) {ns : Location}
    (hentry : tree.entryAt (loc ++ name :: ns) = some entry) :
    tree.entryAt loc = some .directory := by
  induction ns using List.reverseRecOn generalizing entry with
  | nil =>
    have hdir := h.parent _ (mem_of_entryAt hentry (by simp))
    rwa [List.dropLast_concat] at hdir
  | append_singleton ns n ih =>
    have hdir := h.parent _ (mem_of_entryAt hentry (by simp))
    rw [← List.cons_append, ← List.append_assoc, List.dropLast_concat] at hdir
    exact ih hdir

end WellFormed

theorem entryAt_put (hne : loc ≠ []) (entry : Entry) (l : Location) :
    (tree.put loc entry).entryAt l = if l = loc then some entry else tree.entryAt l := by
  by_cases hl : l = loc
  · rw [if_pos hl, hl, entryAt_of_ne_nil hne, put, List.lookup_cons_self]
  · rw [if_neg hl]
    by_cases hnil : l = []
    · rw [hnil]
      rfl
    · have hl' : (l == loc) = false := beq_eq_false_iff_ne.mpr hl
      rw [entryAt_of_ne_nil hnil, entryAt_of_ne_nil hnil, put, List.lookup_cons, hl']
      exact Lookup.lookup_filter_of_ne fun _ => decide_eq_true hl

theorem WellFormed.put (h : tree.WellFormed) (hdir : tree.entryAt dir = some .directory)
    (hname : IsName name) (hnew : tree.entryAt (dir ++ [name]) ≠ some .directory) :
    (tree.put (dir ++ [name]) entry).WellFormed := by
  have hentry : ∀ l, tree.entryAt l = some .directory →
      (tree.put (dir ++ [name]) entry).entryAt l = some .directory := by
    intro l hl
    rw [entryAt_put (by simp), if_neg]
    · exact hl
    · rintro rfl
      exact hnew hl
  have hold : ∀ e ∈ tree.entries.filter fun e => e.1 ≠ dir ++ [name], e ∈ tree.entries :=
    fun e he => List.mem_of_mem_filter he
  refine ⟨?_, ?_, ?_⟩
  · rw [FileTree.put, List.map_cons, List.nodup_cons]
    refine ⟨?_, (List.filter_sublist.map Prod.fst).nodup h.nodup⟩
    simp
  · rintro e he
    rcases List.mem_cons.mp he with rfl | he
    · rw [List.dropLast_concat]
      exact hentry dir hdir
    · exact hentry _ (h.parent e (hold e he))
  · rintro e he n hn
    rcases List.mem_cons.mp he with rfl | he
    · rcases List.mem_append.mp hn with hn | hn
      · exact h.names_of_entryAt hdir n hn
      · rwa [List.mem_singleton.mp hn]
    · exact h.names e (hold e he) n hn

section Target

theorem isName_of_mem_splitOn {last : Text} (hmem : last ∈ Text.splitOn '/' path)
    (hnul : '\x00' ∉ path) (hne : last ≠ []) (hspecial : isSpecial last = false)
    (hshort : isTooLong last = false) : IsName last where
  ne_nil := hne
  ne_here := by rintro rfl; simp [isSpecial] at hspecial
  ne_up := by rintro rfl; simp [isSpecial] at hspecial
  slash := Text.not_mem_of_mem_splitOn hmem
  nul := fun h => hnul (Text.mem_of_mem_splitOn hmem h)
  short := hshort

theorem reverse_splitOn {last : Text} {before : List Text}
    (h : (Text.splitOn '/' path).reverse.dropWhile (· = []) = last :: before) :
    last ≠ [] ∧ last ∈ Text.splitOn '/' path ∧ (path ≠ [] → path.getLast? ≠ some '/' →
      Text.splitOn '/' path = before.reverse ++ [last]) := by
  have hne : last ≠ [] := by
    have hhead := List.head?_dropWhile_not (fun piece : Text => decide (piece = []))
      (Text.splitOn '/' path).reverse
    simpa [h] using hhead
  have hmem : last ∈ Text.splitOn '/' path := by
    have hsub := (List.dropWhile_suffix (fun piece : Text => decide (piece = []))
      (l := (Text.splitOn '/' path).reverse)).subset
    rw [h] at hsub
    exact List.mem_reverse.mp (hsub List.mem_cons_self)
  refine ⟨hne, hmem, fun hpath hslash => ?_⟩
  obtain ⟨s, c, rfl⟩ := (List.eq_nil_or_concat path).resolve_left hpath
  have hc : c ≠ '/' := by
    rintro rfl
    simp at hslash
  obtain ⟨pieces, piece, hsplit⟩ := Text.splitOn_concat hc s
  rw [List.concat_eq_append, hsplit] at h ⊢
  rw [List.reverse_append, List.reverse_singleton, List.singleton_append,
    List.dropWhile_cons_of_neg (by simp)] at h
  obtain ⟨rfl, rfl⟩ := List.cons.inj h
  rw [List.reverse_reverse]

/-- What a path is taken apart into for making its last entry. Unless slashes follow it, the path
leads to that entry. -/
theorem target_eq_some {last : Text} {slash : Bool}
    (h : tree.target path = .ok (some (dir, last, slash))) :
    tree.entryAt dir = some .directory ∧ (isSpecial last = false → IsName last) ∧
      (slash = false → tree.locate path = .ok (enter dir last)) := by
  unfold target at h
  by_cases hnul : '\x00' ∈ path
  · simp [hnul] at h
  by_cases hpath : path = []
  · simp [hpath] at h
  simp only [List.contains_iff_mem, hnul, hpath, if_false] at h
  split at h
  · simp at h
  · rename_i last' before hpieces
    obtain ⟨hne, hmem, hsplit⟩ := reverse_splitOn hpieces
    split at h
    · simp at h
    · rename_i loc hfollow
      obtain ⟨m, hm, hlast⟩ := follow_append_iff.mp hfollow
      obtain ⟨hdir, -, rfl⟩ := follow_singleton_iff.mp hlast
      rw [enter_here] at h
      cases hshort : isTooLong last' with
      | true => simp [hshort] at h
      | false =>
        simp only [hshort, Bool.false_eq_true, if_false, Except.ok.injEq, Option.some.injEq,
          Prod.mk.injEq] at h
        obtain ⟨rfl, rfl, rfl⟩ := h
        refine ⟨hdir, fun hspecial => isName_of_mem_splitOn hmem hnul hne hspecial hshort, ?_⟩
        intro hslash
        refine locate_iff.mpr ⟨hnul, hpath, ?_⟩
        rw [hsplit hpath (by simpa using hslash), follow_append_iff]
        exact ⟨m, hm, follow_singleton_iff.mpr ⟨hdir, hshort, rfl⟩⟩

theorem write_eq_ok {content : Bytes} (h : tree.write path content = .ok tree') :
    ∃ dir name, tree.locate path = .ok (dir ++ [name]) ∧ tree.entryAt dir = some .directory ∧
      IsName name ∧ tree.entryAt (dir ++ [name]) ≠ some .directory ∧
      tree' = tree.put (dir ++ [name]) (.file content) := by
  unfold write at h
  split at h
  · simp at h
  · simp at h
  · rename_i dir last slash htarget
    obtain ⟨hdir, hname, hlocate⟩ := target_eq_some htarget
    cases hslash : slash with
    | true => simp [hslash] at h
    | false =>
      cases hspecial : isSpecial last with
      | true => simp [hspecial] at h
      | false =>
        simp only [hslash, hspecial, Bool.or_false, Bool.false_eq_true, if_false] at h
        have hloc := hlocate hslash
        rw [(hname hspecial).enter] at hloc
        refine ⟨dir, last, hloc, hdir, hname hspecial, ?_⟩
        split at h
        · simp at h
        · rename_i hentry
          exact ⟨hentry, (Except.ok.inj h).symm⟩

theorem makeDirectory_eq_ok (h : tree.makeDirectory path = .ok tree') :
    ∃ dir name slash, tree.target path = .ok (some (dir, name, slash)) ∧
      tree.entryAt dir = some .directory ∧ IsName name ∧ tree.entryAt (dir ++ [name]) = none ∧
      tree' = tree.put (dir ++ [name]) .directory := by
  unfold makeDirectory at h
  split at h
  · simp at h
  · simp at h
  · rename_i dir last slash htarget
    obtain ⟨hdir, hname, -⟩ := target_eq_some htarget
    cases hspecial : isSpecial last with
    | true => simp [hspecial] at h
    | false =>
      rw [hspecial, if_neg Bool.false_ne_true] at h
      split at h
      · simp at h
      · rename_i hentry
        exact ⟨dir, last, slash, htarget, hdir, hname hspecial, hentry, (Except.ok.inj h).symm⟩

end Target

section Making

variable {P : FileTree → Prop} {Q : Text → Prop}
  (hstep : ∀ {tree tree' : FileTree} {path : Text}, Q path → P tree →
    tree.makeDirectory path = .ok tree' → P tree')

include hstep

theorem ensureDirectory_induct (hpath : Q path) (h : P tree)
    (hmade : tree.ensureDirectory path = .ok tree') : P tree' := by
  unfold ensureDirectory at hmade
  split at hmade
  · rename_i made hmade'
    obtain rfl := Except.ok.inj hmade
    exact hstep hpath h hmade'
  · split at hmade
    · obtain rfl := Except.ok.inj hmade
      exact h
    · simp at hmade

theorem makeDirectories_induct (hparent : ∀ {path above}, Q path →
    Path.parent? path = some above → Q above) {depth : Nat} (hpath : Q path) (h : P tree)
    (hmade : tree.makeDirectoriesWithin depth path = .ok tree') : P tree' := by
  induction depth generalizing path tree' with
  | zero => simp [makeDirectoriesWithin] at hmade
  | succ depth ih =>
    unfold makeDirectoriesWithin at hmade
    split at hmade
    · obtain rfl := Except.ok.inj hmade
      exact h
    · split at hmade
      · rename_i made hmade'
        obtain rfl := Except.ok.inj hmade
        exact hstep hpath h hmade'
      · split at hmade
        · simp at hmade
        · rename_i above habove
          split at hmade
          · simp at hmade
          · rename_i made hmade'
            exact ensureDirectory_induct hstep hpath (ih (hparent hpath habove) hmade') hmade
      · split at hmade
        · obtain rfl := Except.ok.inj hmade
          exact h
        · simp at hmade

end Making

theorem makeDirectories_current {depth : Nat}
    (h : tree.makeDirectoriesWithin depth path = .ok tree') : tree'.current = tree.current := by
  refine makeDirectories_induct (P := fun made => made.current = tree.current)
    (Q := fun _ => True) ?_ (fun _ _ => trivial) trivial rfl h
  intro made made' path _ hmade hstep
  obtain ⟨dir, name, -, -, -, -, -, rfl⟩ := makeDirectory_eq_ok hstep
  exact hmade

theorem makeDirectories_entryAt {depth : Nat}
    (h : tree.makeDirectoriesWithin depth path = .ok tree')
    (hentry : tree.entryAt loc = some entry) : tree'.entryAt loc = some entry := by
  refine makeDirectories_induct (P := fun made => made.entryAt loc = some entry)
    (Q := fun _ => True) ?_ (fun _ _ => trivial) trivial hentry h
  intro made made' path _ hmade hstep
  obtain ⟨dir, name, -, -, -, -, hnone, rfl⟩ := makeDirectory_eq_ok hstep
  rw [entryAt_put (by simp), if_neg]
  · exact hmade
  · rintro rfl
    exact nomatch hmade.symm.trans hnone

namespace WellFormed

theorem makeDirectory (h : tree.WellFormed) (hmade : tree.makeDirectory path = .ok tree') :
    tree'.WellFormed := by
  obtain ⟨dir, name, -, -, hdir, hname, hnew, rfl⟩ := makeDirectory_eq_ok hmade
  exact h.put hdir hname (by simp [hnew])

theorem write {content : Bytes} (h : tree.WellFormed)
    (hwrite : tree.write path content = .ok tree') : tree'.WellFormed := by
  obtain ⟨dir, name, -, hdir, hname, hnew, rfl⟩ := write_eq_ok hwrite
  exact h.put hdir hname hnew

theorem makeDirectories (h : tree.WellFormed) (hmade : tree.makeDirectories path = .ok tree') :
    tree'.WellFormed :=
  makeDirectories_induct (Q := fun _ => True) (fun _ hwell hstep => makeDirectory hwell hstep)
    (fun _ _ => trivial) trivial h hmade

end WellFormed

section Plant

theorem fillPath_concat (tree : FileTree) (loc : Location) (name : Text) :
    tree.fillPath (loc ++ [name]) = (tree.fillPath loc).fill (loc ++ [name]) := by
  rw [fillPath, List.length_append, List.length_singleton, List.range_succ, List.foldl_append,
    List.foldl_cons, List.foldl_nil, List.take_of_length_le (by simp), fillPath]
  congr 1
  refine List.foldl_ext _ _ _ fun tree n hn => ?_
  rw [List.take_append_of_le_length (List.mem_range.mp hn)]

theorem entryAt_fill (tree : FileTree) (loc l : Location) :
    (tree.fill loc).entryAt l = tree.entryAt l ∨
      l = loc ∧ (tree.fill loc).entryAt l = some .directory := by
  unfold fill
  split
  · exact Or.inl rfl
  · rename_i hnone
    rw [entryAt_put (by rintro rfl; exact hnone rfl)]
    split
    · rename_i hl
      exact Or.inr ⟨hl, rfl⟩
    · exact Or.inl rfl

theorem entryAt_fillPath (tree : FileTree) (loc l : Location) :
    (tree.fillPath loc).entryAt l = tree.entryAt l ∨
      l <+: loc ∧ (tree.fillPath loc).entryAt l = some .directory := by
  induction loc using List.reverseRecOn with
  | nil => exact Or.inl rfl
  | append_singleton loc name ih =>
    rw [fillPath_concat]
    rcases entryAt_fill (tree.fillPath loc) (loc ++ [name]) l with h | ⟨rfl, h⟩
    · rw [h]
      exact ih.imp_right fun ⟨hl, hdir⟩ => ⟨hl.trans (List.prefix_append loc [name]), hdir⟩
    · exact Or.inr ⟨List.prefix_rfl, h⟩

theorem WellFormed.fillPath (h : tree.WellFormed) (hnames : ∀ name ∈ loc, IsName name)
    (hfree : ∀ l, l <+: loc → ∀ content, tree.entryAt l ≠ some (.file content)) :
    (tree.fillPath loc).WellFormed ∧ (tree.fillPath loc).entryAt loc = some .directory := by
  induction loc using List.reverseRecOn with
  | nil => exact ⟨h, rfl⟩
  | append_singleton loc name ih =>
    obtain ⟨hwell, hdir⟩ := ih (fun n hn => hnames n (List.mem_append_left _ hn))
      fun l hl => hfree l (hl.trans (List.prefix_append loc [name]))
    rw [fillPath_concat, fill]
    split
    · rename_i hsome
      refine ⟨hwell, ?_⟩
      rcases entryAt_fillPath tree loc (loc ++ [name]) with hold | ⟨-, hnew⟩
      · obtain ⟨entry, hentry⟩ := Option.isSome_iff_exists.mp hsome
        cases entry with
        | directory => exact hentry
        | file content => exact absurd (hold.symm.trans hentry) (hfree _ List.prefix_rfl content)
      · exact hnew
    · rename_i hnone
      rw [Option.not_isSome_iff_eq_none] at hnone
      refine ⟨hwell.put hdir (hnames name (by simp)) (by simp [hnone]), ?_⟩
      rw [entryAt_put (by simp), if_pos rfl]

theorem WellFormed.plant {content : Bytes} (h : tree.WellFormed) (hname : IsName name)
    (hnames : ∀ name ∈ dir, IsName name)
    (hfree : ∀ l, l <+: dir → ∀ content, tree.entryAt l ≠ some (.file content))
    (hnew : tree.entryAt (dir ++ [name]) ≠ some .directory) :
    (tree.plant (dir ++ [name]) content).WellFormed := by
  obtain ⟨hwell, hdir⟩ := h.fillPath hnames hfree
  rw [FileTree.plant, List.dropLast_concat]
  refine hwell.put hdir hname ?_
  rcases entryAt_fillPath tree dir (dir ++ [name]) with hold | ⟨hbelow, -⟩
  · rwa [hold]
  · have hlength := hbelow.length_le
    rw [List.length_append, List.length_singleton] at hlength
    omega

end Plant

end SceneAudit.FileTree
