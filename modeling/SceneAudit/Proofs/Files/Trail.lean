import SceneAudit.Proofs.Files.WellFormed

/-! # The trail of a path

The locations that a path leads through are told from its text and from where it starts. Trees that
agree on them do the same with the path: it is followed to the same end or refused with the same
fault, and a file is written to the same place or not at all.
-/

namespace SceneAudit.FileTree

variable {tree tree' : FileTree} {loc l : Location} {path : Text}

def way (loc : Location) : List Text → List Location
  | [] => [loc]
  | piece :: pieces => loc :: way (enter loc piece) pieces

def trail (tree : FileTree) (path : Text) : List Location :=
  way (tree.origin path) (Text.splitOn '/' path)

/-- The location that the pieces of a path lead to if nothing is in the way. -/
def goal (loc : Location) (pieces : List Text) : Location :=
  pieces.foldl enter loc

section Way

variable {ps qs : List Text}

theorem goal_mem_way (loc : Location) (pieces : List Text) : goal loc pieces ∈ way loc pieces := by
  induction pieces generalizing loc with
  | nil => exact List.mem_singleton_self loc
  | cons p ps ih => exact List.mem_cons_of_mem loc (ih (enter loc p))

theorem mem_way_self (loc : Location) (pieces : List Text) : loc ∈ way loc pieces := by
  cases pieces <;> exact List.mem_cons_self

theorem mem_way_append :
    l ∈ way loc (ps ++ qs) ↔ l ∈ way loc ps ∨ l ∈ way (goal loc ps) qs := by
  induction ps generalizing loc with
  | nil =>
    refine ⟨Or.inr, ?_⟩
    rintro (h | h)
    · obtain rfl := List.mem_singleton.mp h
      exact mem_way_self _ qs
    · exact h
  | cons p ps ih =>
    rw [List.cons_append, way, way, List.mem_cons, List.mem_cons, ih, or_assoc]
    rfl

theorem goal_append : goal loc (ps ++ qs) = goal (goal loc ps) qs :=
  List.foldl_append

theorem eq_goal_of_follow (h : tree.follow loc ps = .ok l) : l = goal loc ps := by
  induction ps generalizing loc with
  | nil => exact (Except.ok.inj h).symm
  | cons p ps ih => exact ih (follow_cons_iff.mp h).2.2

theorem directory_of_mem_way {m : Location} (h : tree.follow loc ps = .ok l) (hm : m ∈ way loc ps) :
    tree.entryAt m = some .directory ∨ m = l := by
  induction ps generalizing loc with
  | nil => exact Or.inr ((List.mem_singleton.mp hm).trans (Except.ok.inj h))
  | cons p ps ih =>
    obtain ⟨hdir, -, hrest⟩ := follow_cons_iff.mp h
    rcases List.mem_cons.mp hm with rfl | hm
    · exact Or.inl hdir
    · exact ih hrest hm

end Way

/-- Two trees have the same entries at some locations. -/
structure AgreeOn (S : Location → Prop) (tree tree' : FileTree) : Prop where
  current : tree.current = tree'.current
  entries : ∀ l, S l → tree.entryAt l = tree'.entryAt l

/-- The same faults, or trees that agree at some locations. -/
inductive SameResult (S : Location → Prop) : Except Fault FileTree → Except Fault FileTree → Prop
  | ok {tree tree' : FileTree} (h : AgreeOn S tree tree') : SameResult S (.ok tree) (.ok tree')
  | error (fault : Fault) : SameResult S (.error fault) (.error fault)

namespace AgreeOn

variable {S : Location → Prop}

theorem refl (S : Location → Prop) (tree : FileTree) : AgreeOn S tree tree :=
  ⟨rfl, fun _ _ => rfl⟩

theorem symm (h : AgreeOn S tree tree') : AgreeOn S tree' tree :=
  ⟨h.current.symm, fun l hl => (h.entries l hl).symm⟩

theorem trans {tree'' : FileTree} (h : AgreeOn S tree tree') (h' : AgreeOn S tree' tree'') :
    AgreeOn S tree tree'' :=
  ⟨h.current.trans h'.current, fun l hl => (h.entries l hl).trans (h'.entries l hl)⟩

theorem mono {S' : Location → Prop} (h : AgreeOn S tree tree') (hsub : ∀ l, S' l → S l) :
    AgreeOn S' tree tree' :=
  ⟨h.current, fun l hl => h.entries l (hsub l hl)⟩

theorem put (h : AgreeOn S tree tree') (hne : loc ≠ []) (entry : Entry) :
    AgreeOn S (tree.put loc entry) (tree'.put loc entry) := by
  refine ⟨h.current, fun l hl => ?_⟩
  rw [entryAt_put hne, entryAt_put hne, h.entries l hl]

theorem put_elsewhere (h : AgreeOn S tree tree') (hne : loc ≠ []) (hout : ¬ S loc) (entry : Entry) :
    AgreeOn S (tree.put loc entry) tree' := by
  refine ⟨h.current, fun l hl => ?_⟩
  rw [entryAt_put hne, if_neg, h.entries l hl]
  rintro rfl
  exact hout hl

theorem of_puts (hne : loc ≠ []) (hout : ¬ S loc) (entry entry' : Entry) :
    AgreeOn S (tree.put loc entry) (tree.put loc entry') :=
  ((refl S tree).put_elsewhere hne hout entry).trans
    ((refl S tree).put_elsewhere hne hout entry').symm

theorem origin (h : AgreeOn S tree tree') : tree.origin path = tree'.origin path := by
  rw [FileTree.origin, FileTree.origin, h.current]

theorem trail (h : AgreeOn S tree tree') : tree.trail path = tree'.trail path := by
  rw [FileTree.trail, FileTree.trail, h.origin]

theorem follow (h : AgreeOn S tree tree') {pieces : List Text} (hS : ∀ l ∈ way loc pieces, S l) :
    tree.follow loc pieces = tree'.follow loc pieces := by
  induction pieces generalizing loc with
  | nil => rfl
  | cons p ps ih =>
    have hentry := h.entries loc (hS loc List.mem_cons_self)
    cases hdir : tree.entryAt loc with
    | none => rw [FileTree.follow, FileTree.follow, ← hentry, hdir]
    | some entry =>
      cases entry with
      | file content => rw [FileTree.follow, FileTree.follow, ← hentry, hdir]
      | directory =>
        rw [follow_cons_of_directory hdir, follow_cons_of_directory (hentry ▸ hdir),
          ih fun l hl => hS l (List.mem_cons_of_mem _ hl)]

variable (h : AgreeOn S tree tree') (hS : ∀ l ∈ tree.trail path, S l)

include h hS

theorem locate : tree.locate path = tree'.locate path := by
  rw [FileTree.locate, FileTree.locate, h.follow hS, h.origin]

theorem entryOf : tree.entryOf path = tree'.entryOf path := by
  rw [FileTree.entryOf, FileTree.entryOf, ← h.locate hS]
  cases hloc : tree.locate path with
  | error fault => rfl
  | ok loc =>
    obtain rfl := eq_goal_of_follow (locate_iff.mp hloc).2.2
    dsimp only
    rw [h.entries _ (hS _ (goal_mem_way _ _))]

theorem isDirectory : tree.isDirectory path = tree'.isDirectory path := by
  rw [FileTree.isDirectory, FileTree.isDirectory, h.entryOf hS]

end AgreeOn

section Target

theorem splitOn_of_dropWhile {last : Text} {before : List Text}
    (h : (Text.splitOn '/' path).reverse.dropWhile (· = []) = last :: before) :
    ∃ rest, Text.splitOn '/' path = before.reverse ++ ([last] ++ rest) := by
  refine ⟨((Text.splitOn '/' path).reverse.takeWhile (· = [])).reverse, ?_⟩
  have hall :=
    List.takeWhile_append_dropWhile (p := (· = [])) (l := (Text.splitOn '/' path).reverse)
  rw [h] at hall
  have hreverse := congrArg List.reverse hall
  rw [List.reverse_reverse, List.reverse_append, List.reverse_cons, List.append_assoc] at hreverse
  exact hreverse.symm

theorem mem_trail_of_target {dir : Location} {last : Text} {slash : Bool}
    (h : tree.target path = .ok (some (dir, last, slash))) : enter dir last ∈ tree.trail path := by
  unfold target at h
  split at h
  · simp at h
  split at h
  · simp at h
  dsimp only at h
  split at h
  · simp at h
  · rename_i last' before hpieces
    obtain ⟨rest, hsplit⟩ := splitOn_of_dropWhile hpieces
    split at h
    · simp at h
    · rename_i loc hfollow
      split at h
      · simp at h
      · obtain ⟨rfl, rfl, -⟩ := Prod.mk.inj (Option.some.inj (Except.ok.inj h))
        obtain rfl := eq_goal_of_follow hfollow
        rw [goal_append, trail, hsplit, mem_way_append, mem_way_append]
        exact Or.inr (Or.inl (goal_mem_way _ _))

namespace AgreeOn

variable {S : Location → Prop} (h : AgreeOn S tree tree') (hS : ∀ l ∈ tree.trail path, S l)

include h hS

theorem target : tree.target path = tree'.target path := by
  unfold FileTree.target
  split
  · rfl
  split
  · rfl
  dsimp only
  split
  · rfl
  · rename_i last before hpieces
    obtain ⟨rest, hsplit⟩ := splitOn_of_dropWhile hpieces
    rw [← h.origin, h.follow]
    intro l hl
    apply hS
    rw [FileTree.trail, hsplit, mem_way_append]
    rcases mem_way_append.mp hl with hl | hl
    · exact Or.inl hl
    · simp [way, enter_here] at hl
      exact Or.inr (hl ▸ mem_way_self _ _)

theorem entryAt_target {dir : Location} {last : Text} {slash : Bool}
    (htarget : tree.target path = .ok (some (dir, last, slash))) (hplain : isSpecial last = false) :
    tree.entryAt (dir ++ [last]) = tree'.entryAt (dir ++ [last]) := by
  have hname : IsName last := (target_eq_some htarget).2.1 hplain
  rw [← hname.enter dir]
  exact h.entries _ (hS _ (mem_trail_of_target htarget))

theorem write (content : Bytes) :
    SameResult S (tree.write path content) (tree'.write path content) := by
  rw [FileTree.write, FileTree.write, ← h.target hS]
  cases htarget : tree.target path with
  | error fault => exact .error fault
  | ok place =>
    rcases place with _ | ⟨dir, last, slash⟩
    · exact .error _
    dsimp only
    split
    · exact .error _
    · rename_i hplain
      rw [Bool.or_eq_true_iff, not_or, Bool.not_eq_true, Bool.not_eq_true] at hplain
      rw [← h.entryAt_target hS htarget hplain.2]
      split
      · exact .error _
      · exact .ok (h.put (by simp) _)

theorem makeDirectory : SameResult S (tree.makeDirectory path) (tree'.makeDirectory path) := by
  rw [FileTree.makeDirectory, FileTree.makeDirectory, ← h.target hS]
  cases htarget : tree.target path with
  | error fault => exact .error fault
  | ok place =>
    rcases place with _ | ⟨dir, last, slash⟩
    · exact .error _
    dsimp only
    split
    · exact .error _
    · rename_i hplain
      rw [← h.entryAt_target hS htarget (Bool.not_eq_true _ ▸ hplain)]
      split
      · exact .error _
      · exact .ok (h.put (by simp) _)

theorem ensureDirectory :
    SameResult S (tree.ensureDirectory path) (tree'.ensureDirectory path) := by
  rw [FileTree.ensureDirectory, FileTree.ensureDirectory, ← h.isDirectory hS]
  have hmade := h.makeDirectory hS
  generalize tree.makeDirectory path = result, tree'.makeDirectory path = result' at hmade
  cases hmade with
  | ok hmade => exact .ok hmade
  | error fault =>
    dsimp only
    split
    · exact .ok h
    · exact .error fault

end AgreeOn

end Target

section Join

variable {base r : Text}

theorem exists_splitOn_join (base : Text) (hr : Path.isAbsolute r = false) :
    ∃ ps, Text.splitOn '/' (Path.join base r) = ps ++ Text.splitOn '/' r ∧
      (Text.splitOn '/' base = ps ∨ Text.splitOn '/' base = ps ++ [[]]) := by
  rw [Path.join, hr, if_neg Bool.false_ne_true]
  by_cases hnil : base = []
  · subst hnil
    exact ⟨[], rfl, Or.inr rfl⟩
  by_cases hslash : base.getLast? = some '/'
  · obtain ⟨s, rfl⟩ := List.getLast?_eq_some_iff.mp hslash
    rw [if_pos (Or.inr hslash), List.append_assoc, List.singleton_append, Text.splitOn_append_sep,
      Text.splitOn_append_sep]
    exact ⟨_, rfl, Or.inr rfl⟩
  · rw [if_neg (not_or_intro hnil hslash), Text.splitOn_append_sep]
    exact ⟨_, rfl, Or.inl rfl⟩

theorem origin_join (hr : Path.isAbsolute r = false) :
    tree.origin (Path.join base r) = tree.origin base := by
  have habsolute : Path.isAbsolute (Path.join base r) = Path.isAbsolute base := by
    rw [Path.join, hr, if_neg Bool.false_ne_true]
    cases base with
    | nil => rw [if_pos (Or.inl rfl)]; exact hr
    | cons c t => split <;> rfl
  rw [origin, origin, habsolute]

def goalOf (tree : FileTree) (path : Text) : Location :=
  goal (tree.origin path) (Text.splitOn '/' path)

theorem goalOf_join (hr : Path.isAbsolute r = false) :
    tree.goalOf (Path.join base r) = goal (tree.goalOf base) (Text.splitOn '/' r) := by
  obtain ⟨ps, hjoin, hbase⟩ := exists_splitOn_join base hr
  rw [goalOf, goalOf, origin_join hr, hjoin, goal_append]
  rcases hbase with hbase | hbase
  · rw [hbase]
  · rw [hbase, goal_append]
    rfl

/-- A joined path leads through the locations of its base, and from there on. -/
theorem mem_trail_join (hr : Path.isAbsolute r = false) :
    l ∈ tree.trail (Path.join base r) ↔
      l ∈ tree.trail base ∨ l ∈ way (tree.goalOf base) (Text.splitOn '/' r) := by
  obtain ⟨ps, hjoin, hbase⟩ := exists_splitOn_join base hr
  rw [trail, trail, goalOf, origin_join hr, hjoin, mem_way_append]
  rcases hbase with hbase | hbase
  · rw [hbase]
  · rw [hbase, goal_append, mem_way_append]
    have hhere : ∀ m, l ∈ way m [[]] → l ∈ way m (Text.splitOn '/' r) := by
      intro m hl
      obtain rfl : l = m := by simpa [way, enter, Path.component?] using hl
      exact mem_way_self _ _
    constructor
    · rintro (hl | hl)
      · exact Or.inl (Or.inl hl)
      · exact Or.inr hl
    · rintro ((hl | hl) | hl)
      · exact Or.inl hl
      · exact Or.inr (hhere _ hl)
      · exact Or.inr hl

theorem directory_of_mem_trail_base (hr : Path.isAbsolute r = false)
    (h : tree.locate (Path.join base r) = .ok loc) (hl : l ∈ tree.trail base) :
    tree.entryAt l = some .directory := by
  obtain ⟨ps, hjoin, hbase⟩ := exists_splitOn_join base hr
  have hfollow := (locate_iff.mp h).2.2
  rw [origin_join hr, hjoin] at hfollow
  obtain ⟨m, hm, hrest⟩ := follow_append_iff.mp hfollow
  obtain ⟨piece, pieces, hpieces⟩ := List.exists_cons_of_ne_nil (Text.splitOn_ne_nil '/' r)
  rw [hpieces] at hrest
  have hdir := (follow_cons_iff.mp hrest).1
  have hway : l ∈ way (tree.origin base) ps → tree.entryAt l = some .directory := by
    intro hl
    rcases directory_of_mem_way hm hl with hl | rfl
    · exact hl
    · exact hdir
  rw [trail] at hl
  rcases hbase with hbase | hbase
  · exact hway (hbase ▸ hl)
  · rw [hbase, mem_way_append] at hl
    rcases hl with hl | hl
    · exact hway hl
    · obtain rfl : l = goal (tree.origin base) ps := by
        simpa [way, enter, Path.component?] using hl
      exact hway (goal_mem_way _ _)

end Join

section Downward

variable {pieces : List Text}

/-- The names among the pieces of a path. -/
def names (pieces : List Text) : List Text :=
  pieces.filter fun piece => piece ≠ [] ∧ piece ≠ ['.']

theorem names_cons (piece : Text) (pieces : List Text) :
    names (piece :: pieces) = names [piece] ++ names pieces :=
  List.filter_append [piece] pieces

theorem enter_eq_append_names {piece : Text} (hup : piece ≠ ['.', '.']) :
    enter loc piece = loc ++ names [piece] := by
  unfold enter Path.component? names
  by_cases hstay : piece = [] ∨ piece = ['.']
  · rcases hstay with rfl | rfl <;> simp
  · obtain ⟨hnil, hhere⟩ := not_or.mp hstay
    simp [hnil, hhere, hup, move]

theorem goal_downward (hup : ['.', '.'] ∉ pieces) : goal loc pieces = loc ++ names pieces := by
  induction pieces generalizing loc with
  | nil => exact (List.append_nil loc).symm
  | cons piece pieces ih =>
    obtain ⟨hne, hup⟩ := List.ne_and_not_mem_of_not_mem_cons hup
    calc
      goal (enter loc piece) pieces = enter loc piece ++ names pieces := ih hup
      _ = loc ++ (names [piece] ++ names pieces) := by
        rw [enter_eq_append_names hne.symm, List.append_assoc]
      _ = loc ++ names (piece :: pieces) := by rw [← names_cons]

theorem mem_way_downward (hup : ['.', '.'] ∉ pieces) (hl : l ∈ way loc pieces) :
    ∃ ns, ns <+: names pieces ∧ l = loc ++ ns := by
  induction pieces generalizing loc with
  | nil =>
    obtain rfl := List.mem_singleton.mp hl
    exact ⟨[], List.nil_prefix, (List.append_nil _).symm⟩
  | cons piece pieces ih =>
    obtain ⟨hne, hup⟩ := List.ne_and_not_mem_of_not_mem_cons hup
    rcases List.mem_cons.mp hl with rfl | hl
    · exact ⟨[], List.nil_prefix, (List.append_nil _).symm⟩
    · obtain ⟨ns, hns, rfl⟩ := ih hup hl
      refine ⟨names [piece] ++ ns, ?_, ?_⟩
      · rw [names_cons piece pieces]
        exact List.prefix_append_right_inj _ |>.mpr hns
      · rw [enter_eq_append_names hne.symm, List.append_assoc]

end Downward

end SceneAudit.FileTree
