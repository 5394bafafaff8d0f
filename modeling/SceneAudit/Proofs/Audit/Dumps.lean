import SceneAudit.Proofs.Audit.Project
import SceneAudit.Proofs.Files.Trail

/-! # Planned dumps do not meet

Dumps are told apart by the file names of their scenes. Unless their common suffix leads back up, no
dump leads through a location that another dump is written to.
-/

namespace SceneAudit

theorem Path.of_fileName? {path name : Text} (h : fileName? path = some name) :
    name ≠ [] ∧ name ≠ ['.'] ∧ '/' ∉ name := by
  unfold fileName? at h
  split at h
  · rename_i last hlast
    obtain rfl := Option.some.inj h
    rcases List.mem_append.mp (List.mem_of_getLast? hlast) with hmem | hmem
    · revert hmem
      cases (split path).1 <;> simp [startComponents]
    · obtain ⟨piece, hpiece, hcomponent⟩ := List.mem_filterMap.mp hmem
      unfold component? at hcomponent
      split at hcomponent
      · simp at hcomponent
      · rename_i hne
        split at hcomponent
        · simp at hcomponent
        · obtain rfl := Component.name.inj (Option.some.inj hcomponent)
          exact ⟨(not_or.mp hne).1, (not_or.mp hne).2, Text.not_mem_of_mem_splitOn hpiece⟩
  · simp at h

namespace DumpPlan

/-- Somewhere behind a slash, the suffix of dumps leads back up. -/
def Climbs (suffix : Text) : Prop :=
  ['.', '.'] ∈ (Text.splitOn '/' suffix).tail

instance : DecidablePred Climbs := fun _ => inferInstanceAs (Decidable (_ ∈ _))

variable {output suffix dump : Text} {scenes : List Text}

def Apart (a b : Option Text) : Prop :=
  ∀ dump, a = some dump → b ≠ some dump

theorem Apart.symm {a b : Option Text} (h : Apart a b) : Apart b a :=
  fun dump hb ha => h dump ha hb

/-- The plan gives no path to two scenes, however it is spelled. -/
theorem distinct_ofTexts (output suffix : Text) (scenes : List Text) :
    (ofTexts output suffix scenes).Pairwise fun a b =>
      ∀ d, a = some d → ∀ d', b = some d' → Path.same d d' = false := by
  rw [ofTexts_eq]
  exact distinct_assign (fun _ _ => Path.same_symm) (fun _ _ _ => Path.same_trans)

theorem pairwise_ofTexts (output suffix : Text) (scenes : List Text) :
    (ofTexts output suffix scenes).Pairwise Apart := by
  refine (distinct_ofTexts output suffix scenes).imp fun h dump ha hb => ?_
  have hsame : Path.same dump dump = true := beq_self_eq_true _
  rw [h dump ha dump hb] at hsame
  cases hsame

/-- A text that is appended to the output directory for the dump of a scene. -/
structure IsName (suffix r : Text) : Prop where
  relative : Path.isAbsolute r = false
  shape : ∃ name, name ≠ [] ∧ name ≠ ['.'] ∧ '/' ∉ name ∧ r = name ++ '.' :: suffix

theorem isName_of_fileName? {path name : Text} (h : Path.fileName? path = some name) :
    IsName suffix (name ++ '.' :: suffix) := by
  obtain ⟨hnil, hhere, hslash⟩ := Path.of_fileName? h
  refine ⟨?_, name, hnil, hhere, hslash, rfl⟩
  obtain ⟨c, t, rfl⟩ := List.exists_cons_of_ne_nil hnil
  rw [Path.isAbsolute, List.cons_append, List.head?_cons, beq_eq_false_iff_ne]
  rintro ⟨rfl⟩
  exact hslash List.mem_cons_self

theorem exists_isName_of_mem_ofTexts (h : some dump ∈ ofTexts output suffix scenes) :
    ∃ r, IsName suffix r ∧ dump = Path.join output r := by
  rw [ofTexts_eq] at h
  obtain ⟨i, hi⟩ := List.getElem?_of_mem h
  obtain ⟨scene, -, htarget, -⟩ :=
    exists_scene_of_getElem?_assign hi fun _ _ _ => Path.same_trans
  obtain ⟨name, hname, rfl⟩ := Option.map_eq_some_iff.mp htarget
  exact ⟨name ++ '.' :: suffix, isName_of_fileName? hname, rfl⟩

theorem IsName.exists_pieces {r : Text} (hr : IsName suffix r) :
    ∃ name first, name ≠ [] ∧ name ++ '.' :: first ≠ ['.', '.'] ∧ r = name ++ '.' :: suffix ∧
      (Text.splitOn '/' suffix).head? = some first ∧
      Text.splitOn '/' r = (name ++ '.' :: first) :: (Text.splitOn '/' suffix).tail := by
  obtain ⟨name, hnil, hhere, hslash, rfl⟩ := hr.shape
  obtain ⟨first, rest, hsuffix⟩ := List.exists_cons_of_ne_nil (Text.splitOn_ne_nil '/' suffix)
  refine ⟨name, first, hnil, ?_, rfl, by rw [hsuffix]; rfl, ?_⟩
  · intro hup
    rcases name with _ | ⟨c, _ | ⟨d, name⟩⟩
    · exact hnil rfl
    · exact hhere (by rw [(List.cons.inj hup).1])
    · simpa using congrArg List.length hup
  · rw [hsuffix]
    exact Text.splitOn_append_of_not_mem hslash (Text.splitOn_cons (by decide) hsuffix)

section Names

variable {r r' : Text} {loc : Location}

theorem IsName.names_eq (hr : IsName suffix r) : ∃ name first, r = name ++ '.' :: suffix ∧
    (Text.splitOn '/' suffix).head? = some first ∧ FileTree.names (Text.splitOn '/' r) =
      (name ++ '.' :: first) :: FileTree.names (Text.splitOn '/' suffix).tail := by
  obtain ⟨name, first, hnil, -, rfl, hfirst, hpieces⟩ := hr.exists_pieces
  refine ⟨name, first, rfl, hfirst, ?_⟩
  obtain ⟨c, t, rfl⟩ := List.exists_cons_of_ne_nil hnil
  rw [hpieces, FileTree.names_cons]
  simp [FileTree.names]

theorem IsName.up_not_mem (hr : IsName suffix r) (hsuffix : ¬ Climbs suffix) :
    ['.', '.'] ∉ Text.splitOn '/' r := by
  obtain ⟨name, first, -, hup, -, -, hpieces⟩ := hr.exists_pieces
  rw [hpieces, List.mem_cons]
  rintro (h | h)
  · exact hup h.symm
  · exact hsuffix h

theorem IsName.eq_of_goal_mem_way (hr : IsName suffix r) (hr' : IsName suffix r')
    (hsuffix : ¬ Climbs suffix) (h : FileTree.goal loc (Text.splitOn '/' r) ∈
      FileTree.way loc (Text.splitOn '/' r')) : r = r' := by
  obtain ⟨ns, hns, hgoal⟩ := FileTree.mem_way_downward (hr'.up_not_mem hsuffix) h
  rw [FileTree.goal_downward (hr.up_not_mem hsuffix)] at hgoal
  obtain ⟨name, first, rfl, hfirst, hnames⟩ := hr.names_eq
  obtain ⟨name', first', rfl, hfirst', hnames'⟩ := hr'.names_eq
  obtain rfl := Option.some.inj (hfirst.symm.trans hfirst')
  obtain rfl := List.append_cancel_left hgoal
  rw [hnames, hnames', List.cons_prefix_cons] at hns
  rw [List.append_cancel_right hns.1]

end Names

end DumpPlan

namespace FileTree

variable {tree : FileTree} {output suffix r r' : Text} {loc : Location}

theorem not_mem_trail_of_isName (hr : DumpPlan.IsName suffix r) (hr' : DumpPlan.IsName suffix r')
    (hsuffix : ¬ DumpPlan.Climbs suffix) (hne : r ≠ r')
    (hloc : tree.locate (Path.join output r) = .ok loc)
    (hnew : tree.entryAt loc ≠ some .directory) :
    loc ∉ tree.trail (Path.join output r') := by
  intro hmem
  rcases (mem_trail_join hr'.relative).mp hmem with hmem | hmem
  · exact hnew (directory_of_mem_trail_base hr.relative hloc hmem)
  · have hgoal : loc = tree.goalOf (Path.join output r) :=
      eq_goal_of_follow (locate_iff.mp hloc).2.2
    rw [hgoal, goalOf_join hr.relative] at hmem
    exact hne (hr.eq_of_goal_mem_way hr' hsuffix hmem)

theorem mem_trail_dump {l : Location} (hr : DumpPlan.IsName suffix r)
    (hsuffix : ¬ DumpPlan.Climbs suffix) (hl : l ∈ tree.trail (Path.join output r)) :
    l ∈ tree.trail output ∨ tree.goalOf output <+: l := by
  refine (mem_trail_join hr.relative).mp hl |>.imp_right fun hl => ?_
  obtain ⟨ns, -, rfl⟩ := mem_way_downward (hr.up_not_mem hsuffix) hl
  exact List.prefix_append _ _

end FileTree

end SceneAudit
