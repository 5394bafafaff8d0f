import SceneAudit.Proofs.Files.Trail

/-! # Making directories along a trail

The path without its last component leads through the same locations as the path. So trees that
agree along a path agree after the directories of the path have been made.
-/

namespace SceneAudit

namespace Path

/-- A path `a` that ends where a piece of the path `b` ends. -/
def EndsWithin (a b : Text) : Prop :=
  (∃ rest, b = a ++ '/' :: rest) ∨ ∃ s rest, a = s ++ ['/'] ∧ b = s ++ '/' :: rest

theorem trimFront_cases (t : Text) :
    trimFront t = [] ∨ trimFront t = t ∨ ∃ junk, t = junk ++ '/' :: trimFront t := by
  fun_induction trimFront t with
  | case1 => exact Or.inl rfl
  | case2 t ih =>
    refine ih.imp_right fun h => Or.inr ?_
    rcases h with h | ⟨junk, h⟩
    · exact ⟨[], by rw [h, List.nil_append]⟩
    · exact ⟨'/' :: junk, by rw [List.cons_append, ← h]⟩
  | case3 t ih =>
    refine ih.imp_right fun h => Or.inr ?_
    rcases h with h | ⟨junk, h⟩
    · exact ⟨['.'], by rw [h, List.singleton_append]⟩
    · exact ⟨'.' :: '/' :: junk, by rw [List.cons_append, List.cons_append, ← h]⟩
  | case4 => exact Or.inl rfl
  | case5 t => exact Or.inr (Or.inl rfl)

theorem trimBack_cases (t : Text) :
    trimBack t = [] ∨ trimBack t = t ∨ ∃ junk, t = trimBack t ++ '/' :: junk := by
  unfold trimBack
  rcases trimFront_cases t.reverse with h | h | ⟨junk, h⟩
  · exact Or.inl (by rw [h, List.reverse_nil])
  · exact Or.inr (Or.inl (by rw [h, List.reverse_reverse]))
  · refine Or.inr (Or.inr ⟨junk.reverse, ?_⟩)
    have hreverse := congrArg List.reverse h
    simpa using hreverse

theorem dropEnd_cases (t : Text) :
    Text.dropEnd (· ≠ '/') t = [] ∨
      ∃ s rest, Text.dropEnd (· ≠ '/') t = s ++ ['/'] ∧ t = s ++ '/' :: rest := by
  unfold Text.dropEnd
  have hall :=
    List.takeWhile_append_dropWhile (p := fun c : Char => decide (c ≠ '/')) (l := t.reverse)
  cases hdrop : t.reverse.dropWhile (· ≠ '/') with
  | nil => exact Or.inl rfl
  | cons c rest =>
    refine Or.inr ⟨rest.reverse, (t.reverse.takeWhile (· ≠ '/')).reverse, ?_⟩
    have hhead := List.head?_dropWhile_not (fun c : Char => decide (c ≠ '/')) t.reverse
    rw [hdrop] at hhead
    obtain rfl : c = '/' := by simpa using hhead
    have hreverse := congrArg List.reverse hall
    rw [hdrop] at hreverse
    simpa using hreverse.symm

theorem EndsWithin.append_left {a b : Text} (h : EndsWithin a b) (front : Text) :
    EndsWithin (front ++ a) (front ++ b) := by
  rcases h with ⟨rest, rfl⟩ | ⟨s, rest, rfl, rfl⟩
  · exact Or.inl ⟨rest, by rw [List.append_assoc]⟩
  · exact Or.inr ⟨front ++ s, rest, by rw [List.append_assoc], by rw [List.append_assoc]⟩

theorem EndsWithin.append_right {a b : Text} (h : EndsWithin a b) (tail : Text) :
    EndsWithin a (b ++ tail) := by
  rcases h with ⟨rest, rfl⟩ | ⟨s, rest, rfl, rfl⟩
  · exact Or.inl ⟨rest ++ tail, by rw [List.append_assoc, List.cons_append]⟩
  · exact Or.inr ⟨s, rest ++ tail, rfl, by rw [List.append_assoc, List.cons_append]⟩

theorem startText_append_of_split {path body : Text} {start : PathStart}
    (h : split path = (start, body)) : path = startText start ++ body := by
  unfold split at h
  split at h <;> obtain ⟨rfl, rfl⟩ := Prod.mk.inj h <;> rfl

theorem endsWithin_trimBack_dropEnd (t : Text) :
    trimBack (Text.dropEnd (· ≠ '/') t) = [] ∨
      EndsWithin (trimBack (Text.dropEnd (· ≠ '/') t)) t := by
  rcases dropEnd_cases t with hdrop | ⟨s, rest, hdrop, hs⟩
  · exact Or.inl (by rw [hdrop]; rfl)
  rw [hdrop]
  rcases trimBack_cases (s ++ ['/']) with hnil | hsame | ⟨junk, hjunk⟩
  · exact Or.inl hnil
  · exact Or.inr (Or.inr ⟨s, rest, hsame, hs⟩)
  · refine Or.inr (Or.inl ⟨junk ++ rest, ?_⟩)
    have ht : t = (s ++ ['/']) ++ rest := by simp [hs]
    rw [ht]
    nth_rewrite 1 [hjunk]
    rw [List.append_assoc, List.cons_append]

theorem endsWithin_parent {path above : Text} (h : parent? path = some above) :
    above = [] ∨ EndsWithin above path := by
  unfold parent? at h
  generalize hsplit : split path = parts at h
  rcases parts with ⟨start, body⟩
  dsimp only at h
  split at h
  · split at h
    · exact Or.inl (Option.some.inj h).symm
    · simp at h
  · rename_i hbody
    obtain rfl := Option.some.inj h
    rcases endsWithin_trimBack_dropEnd (trimBack body) with hnil | hwithin
    · rw [hnil, List.append_nil]
      unfold split at hsplit
      split at hsplit <;> obtain ⟨rfl, rfl⟩ := Prod.mk.inj hsplit
      · exact Or.inr (Or.inr ⟨[], _, rfl, rfl⟩)
      · exact absurd rfl hbody
      · exact Or.inr (Or.inl ⟨_, rfl⟩)
      · exact Or.inl rfl
    · rw [startText_append_of_split hsplit]
      refine Or.inr (EndsWithin.append_left ?_ _)
      rcases trimBack_cases body with hnil | hsame | ⟨junk, hjunk⟩
      · exact absurd hnil hbody
      · rwa [hsame] at hwithin ⊢
      · have happend := hwithin.append_right ('/' :: junk)
        rwa [← hjunk] at happend

end Path

namespace FileTree

variable {tree tree' : FileTree} {path : Text} {S : Location → Prop}

theorem trail_subset_of_endsWithin {a : Text} (h : Path.EndsWithin a path) (hne : a ≠ []) :
    tree.trail a ⊆ tree.trail path := by
  intro l hl
  unfold trail at hl ⊢
  rcases h with ⟨rest, rfl⟩ | ⟨s, rest, rfl, rfl⟩
  · have horigin : tree.origin (a ++ '/' :: rest) = tree.origin a := by
      cases a with
      | nil => exact absurd rfl hne
      | cons c t => rfl
    rw [horigin, Text.splitOn_append_sep, mem_way_append]
    exact Or.inl hl
  · have horigin : tree.origin (s ++ '/' :: rest) = tree.origin (s ++ ['/']) := by
      cases s <;> rfl
    rw [Text.splitOn_append_sep, mem_way_append] at hl
    rw [horigin, Text.splitOn_append_sep, mem_way_append]
    rcases hl with hl | hl
    · exact Or.inl hl
    · have hgoal : l = goal (tree.origin (s ++ ['/'])) (Text.splitOn '/' s) := by
        simpa [Text.splitOn, way, enter, Path.component?] using hl
      exact Or.inl (hgoal ▸ goal_mem_way _ _)

theorem trail_subset_of_parent {above : Text} (h : Path.parent? path = some above) :
    above = [] ∨ tree.trail above ⊆ tree.trail path := by
  by_cases hnil : above = []
  · exact Or.inl hnil
  · have hwithin := (Path.endsWithin_parent h).resolve_left hnil
    exact Or.inr (trail_subset_of_endsWithin hwithin hnil)

/-- Making the directories of a path changes nothing that the path does not lead through. -/
theorem makeDirectories_elsewhere {depth : Nat} {made : FileTree} {l : Location}
    (h : tree.makeDirectoriesWithin depth path = .ok made) (hl : l ∉ tree.trail path) :
    made.entryAt l = tree.entryAt l := by
  refine (makeDirectories_induct
    (P := fun made => made.current = tree.current ∧ made.entryAt l = tree.entryAt l)
    (Q := fun q => q = [] ∨ tree.trail q ⊆ tree.trail path) ?_ ?_
    (Or.inr (List.Subset.refl _)) ⟨rfl, rfl⟩ h).2
  · rintro t t' q hq ⟨hcurrent, hentry⟩ hstep
    obtain ⟨dir, name, slash, htarget, -, hname, -, rfl⟩ := makeDirectory_eq_ok hstep
    have hmem := mem_trail_of_target htarget
    rw [hname.enter, trail, origin, hcurrent] at hmem
    rcases hq with rfl | hq
    · simp [target] at htarget
    · refine ⟨hcurrent, ?_⟩
      rw [entryAt_put (by simp), if_neg, hentry]
      rintro rfl
      exact hl (hq hmem)
  · rintro q above (rfl | hq) habove
    · simp [Path.parent?, Path.split, Path.trimBack, Path.trimFront] at habove
    · exact (trail_subset_of_parent habove).imp_right fun hsub => List.Subset.trans hsub hq

namespace AgreeOn

theorem makeDirectoriesWithin (h : AgreeOn S tree tree') (hS : ∀ l ∈ tree.trail path, S l)
    (depth : Nat) : SameResult S (tree.makeDirectoriesWithin depth path)
      (tree'.makeDirectoriesWithin depth path) := by
  induction depth generalizing path with
  | zero => exact .error _
  | succ depth ih =>
    unfold FileTree.makeDirectoriesWithin
    split
    · exact .ok h
    rename_i hne
    have hmade := h.makeDirectory hS
    rw [← h.isDirectory hS]
    generalize tree.makeDirectory path = result, tree'.makeDirectory path = result' at hmade
    cases hmade with
    | ok hmade => exact .ok hmade
    | error fault =>
      cases fault with
      | notFound =>
        dsimp only
        split
        · exact .error _
        · rename_i above hparent
          have hrest : SameResult S (tree.makeDirectoriesWithin depth above)
              (tree'.makeDirectoriesWithin depth above) := by
            rcases trail_subset_of_parent hparent with rfl | hsub
            · cases depth with
              | zero => exact .error _
              | succ depth => exact .ok h
            · exact ih fun l hl => hS l (hsub hl)
          generalize hresult : tree.makeDirectoriesWithin depth above = result,
            tree'.makeDirectoriesWithin depth above = result' at hrest
          cases hrest with
          | error fault => exact .error fault
          | ok hrest =>
            refine hrest.ensureDirectory fun l hl => hS l ?_
            rwa [FileTree.trail, FileTree.origin, makeDirectories_current hresult] at hl
      | _ =>
        dsimp only
        split
        · exact .ok h
        · exact .error _

theorem makeDirectories (h : AgreeOn S tree tree') (hS : ∀ l ∈ tree.trail path, S l) :
    SameResult S (tree.makeDirectories path) (tree'.makeDirectories path) :=
  h.makeDirectoriesWithin hS _

end AgreeOn

section Around

/-- The locations that a path leads through, and those below its end. -/
def Around (tree : FileTree) (path : Text) (l : Location) : Prop :=
  l ∈ tree.trail path ∨ tree.goalOf path <+: l

instance (tree : FileTree) (path : Text) : DecidablePred (tree.Around path) := fun _ =>
  inferInstanceAs (Decidable (_ ∨ _))

theorem around_congr (h : tree.current = tree'.current) : tree.Around path = tree'.Around path := by
  have horigin : tree.origin path = tree'.origin path := by rw [origin, origin, h]
  funext l
  rw [Around, Around, trail, trail, goalOf, goalOf, horigin]

theorem AgreeOn.makeDirectories_around {made made' : FileTree}
    (h : AgreeOn (tree.Around path) tree tree') (hmade : tree.makeDirectories path = .ok made)
    (hmade' : tree'.makeDirectories path = .ok made') :
    AgreeOn (made.Around path) made made' := by
  have hresult := h.makeDirectories fun l hl => Or.inl hl
  rw [hmade, hmade'] at hresult
  rw [around_congr (makeDirectories_current hmade)]
  cases hresult with
  | ok hagree => exact hagree

end Around

end FileTree

end SceneAudit
