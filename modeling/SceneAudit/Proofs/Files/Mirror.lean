import Mathlib.Data.List.TakeWhile
import SceneAudit.Proofs.Files.Below
import SceneAudit.Proofs.Files.Frame

/-! # Directories that mirror each other

A directory of one tree and a directory of another one mirror each other if the same stands below
them. A path inside the one then leads where it leads inside the other, or fails with the same
fault: the same is read there, and what is written there leaves the directories mirroring each
other.
-/

namespace SceneAudit

/-- A directory of one tree and a directory of another one: their paths and their locations. -/
structure Placement where
  path : Text
  path' : Text
  loc : Location
  loc' : Location

/-- A path inside the one directory and the path to the same place inside the other. -/
def Placement.Moved (m : Placement) (a b : Text) : Prop :=
  ∃ r, Path.Inner r ∧ Path.bodyComponents r ≠ [] ∧ a = Path.join m.path r ∧ b = Path.join m.path' r

namespace FileTree

variable {tree tree' : FileTree} {base path : Text} {loc l : Location}

/-- A path leads to a directory, from which it can be continued. -/
def Leads (tree : FileTree) (path : Text) (loc : Location) : Prop :=
  tree.locate (Path.join path ['.']) = .ok loc

instance : Decidable (tree.Leads path loc) :=
  inferInstanceAs (Decidable (_ = _))

section Leads

theorem follow_append_of_ok {ps qs : List Text} (h : tree.follow loc ps = .ok l) :
    tree.follow loc (ps ++ qs) = tree.follow l qs := by
  induction ps generalizing loc with
  | nil =>
    obtain rfl := Except.ok.inj h
    rfl
  | cons p ps ih =>
    obtain ⟨hdir, hshort, hrest⟩ := follow_cons_iff.mp h
    rw [List.cons_append, follow_cons_of_directory hdir, hshort, if_neg Bool.false_ne_true,
      ih hrest]

theorem Leads.exists_pieces (h : tree.Leads base loc) :
    '\x00' ∉ base ∧ tree.entryAt loc = some .directory ∧ ∃ ps,
      tree.follow (tree.origin base) ps = .ok loc ∧ ∀ r, Path.isAbsolute r = false →
        Text.splitOn '/' (Path.join base r) = ps ++ Text.splitOn '/' r := by
  obtain ⟨hnul, -, hfollow⟩ := locate_iff.mp h
  obtain ⟨ps, hps⟩ := Path.exists_splitOn_eq base
  have hhere : Path.isAbsolute ['.'] = false := rfl
  rw [origin_join hhere, hps _ hhere, follow_append_iff] at hfollow
  obtain ⟨m, hm, hend⟩ := hfollow
  obtain ⟨hdir, -, rfl⟩ := follow_singleton_iff.mp hend
  rw [enter_here] at *
  rw [Path.join_eq hhere, List.mem_append, not_or] at hnul
  exact ⟨hnul.1, hdir, ps, hm, hps⟩

theorem Leads.locate_base (h : tree.Leads base loc) (hne : base ≠ []) :
    tree.locate base = .ok loc := by
  have hhere : Path.isAbsolute ['.'] = false := rfl
  obtain ⟨hnul, hdir, ps, hps, hsplit⟩ := h.exists_pieces
  obtain ⟨ps', hsplit', hbase⟩ := exists_splitOn_join base hhere
  obtain rfl : ps = ps' := List.append_cancel_right ((hsplit _ hhere).symm.trans hsplit')
  refine locate_iff.mpr ⟨hnul, hne, ?_⟩
  rcases hbase with hbase | hbase
  · rwa [hbase]
  · rw [hbase, follow_append_of_ok hps]
    exact follow_singleton_iff.mpr ⟨hdir, by decide, rfl⟩

variable {r : Text} (h : tree.Leads base loc) (hr : Path.isAbsolute r = false)

include h hr

theorem Leads.nul_mem_iff : '\x00' ∈ Path.join base r ↔ '\x00' ∈ r := by
  rw [Path.join_eq hr, List.mem_append, or_iff_right h.exists_pieces.1]
  split <;> simp

theorem Leads.locate (hne : Path.join base r ≠ []) : tree.locate (Path.join base r) =
    if '\x00' ∈ r then .error .nulInPath else tree.follow loc (Text.splitOn '/' r) := by
  obtain ⟨-, -, ps, hps, hsplit⟩ := h.exists_pieces
  simp only [FileTree.locate, List.contains_iff_mem, h.nul_mem_iff hr, hne, if_false]
  rw [origin_join hr, hsplit r hr, follow_append_of_ok hps]

theorem Leads.target {last : Text} {before : List Text}
    (hpieces : (Text.splitOn '/' r).reverse.dropWhile (· = []) = last :: before) :
    tree.target (Path.join base r) =
      if '\x00' ∈ r then .error .nulInPath
      else match tree.follow loc (before.reverse ++ [['.']]) with
        | .error e => .error e
        | .ok dir =>
          if isTooLong last then .error .nameTooLong
          else .ok (some (dir, last, r.getLast? == some '/')) := by
  obtain ⟨-, -, ps, hps, hsplit⟩ := h.exists_pieces
  have hnil : r ≠ [] := by
    rintro rfl
    cases hpieces
  have hlast : (Path.join base r).getLast? = r.getLast? := by
    obtain ⟨s, c, rfl⟩ := (List.eq_nil_or_concat r).resolve_left hnil
    rw [Path.join_eq hr, List.concat_eq_append]
    split <;> simp [List.getLast?_append, List.getLast?_cons]
  have hjoin : Path.join base r ≠ [] := by
    intro heq
    rw [heq, List.getLast?_nil, eq_comm, List.getLast?_eq_none_iff] at hlast
    exact hnil hlast
  have hdrop : (Text.splitOn '/' (Path.join base r)).reverse.dropWhile (· = []) =
      last :: (before ++ ps.reverse) := by
    rw [hsplit r hr, List.reverse_append, List.dropWhile_append, hpieces]
    rfl
  have hdir : tree.follow (tree.origin (Path.join base r))
      ((before ++ ps.reverse).reverse ++ [['.']]) =
        tree.follow loc (before.reverse ++ [['.']]) := by
    rw [origin_join hr, List.reverse_append, List.reverse_reverse, List.append_assoc,
      follow_append_of_ok hps]
  simp only [FileTree.target, List.contains_iff_mem, h.nul_mem_iff hr, hjoin, if_false, hdrop,
    hlast]
  exact hdir ▸ rfl

end Leads

section Put

variable {content : Bytes}

theorem ne_nil_of_entryAt (h : tree.entryAt loc ≠ some .directory) : loc ≠ [] := by
  rintro rfl
  exact h rfl

theorem Leads.put (h : tree.Leads base l) (hold : tree.entryAt loc ≠ some .directory)
    (content : Bytes) : (tree.put loc (.file content)).Leads base l := by
  have hdir : ∀ l, tree.entryAt l = some .directory ↔
      (tree.put loc (.file content)).entryAt l = some .directory := by
    intro l
    rw [entryAt_put (ne_nil_of_entryAt hold)]
    split
    · rename_i hl
      simp [hl, hold]
    · rfl
  unfold Leads at *
  rw [locate_iff] at *
  exact ⟨h.1, h.2.1, (follow_congr hdir).mp h.2.2⟩

end Put

theorem exists_last_piece {r : Text} (h : Path.bodyComponents r ≠ []) : ∃ last before,
    (Text.splitOn '/' r).reverse.dropWhile (· = []) = last :: before := by
  refine List.exists_cons_of_ne_nil fun hnil => h ?_
  rw [Path.bodyComponents, List.filterMap_eq_nil_iff]
  intro piece hpiece
  rw [List.dropWhile_eq_nil_iff] at hnil
  obtain rfl : piece = [] := of_decide_eq_true (hnil piece (List.mem_reverse.mpr hpiece))
  rfl

/-- The same stands below the directories of some placements, and of two directories one lies below
the other in both trees, at the same place, or in neither. -/
structure Mirrored (places : List Placement) (tree tree' : FileTree) : Prop where
  leads : ∀ m ∈ places, tree.Leads m.path m.loc ∧ tree'.Leads m.path' m.loc'
  entries : ∀ m ∈ places, ∀ ns, tree.entryAt (m.loc ++ ns) = tree'.entryAt (m.loc' ++ ns)
  apart : ∀ m ∈ places, ∀ n ∈ places, beneath? m.loc n.loc = beneath? m.loc' n.loc'

/-- The same fault, or trees in which the same stands below the directories of some placements. -/
inductive MirroredResult (places : List Placement) :
    Except Fault FileTree → Except Fault FileTree → Prop
  | ok {tree tree' : FileTree} (h : Mirrored places tree tree') :
      MirroredResult places (.ok tree) (.ok tree')
  | error (fault : Fault) : MirroredResult places (.error fault) (.error fault)

namespace Mirrored

variable {places : List Placement} {m : Placement} {a b r : Text}
  (h : Mirrored places tree tree') (hm : m ∈ places)

include h hm

theorem follow {pieces : List Text} (hdown : ['.', '.'] ∉ pieces) (ns : Location) :
    ∃ e : Except Fault Location, tree.follow (m.loc ++ ns) pieces = e.map (m.loc ++ ·) ∧
      tree'.follow (m.loc' ++ ns) pieces = e.map (m.loc' ++ ·) := by
  induction pieces generalizing ns with
  | nil => exact ⟨.ok ns, rfl, rfl⟩
  | cons piece pieces ih =>
    obtain ⟨hup, hdown⟩ := List.ne_and_not_mem_of_not_mem_cons hdown
    have hentry := h.entries m hm ns
    rcases hdir : tree.entryAt (m.loc ++ ns) with _ | (_ | content)
    · refine ⟨.error .notFound, ?_⟩
      rw [FileTree.follow, FileTree.follow, ← hentry, hdir]
      exact ⟨rfl, rfl⟩
    · rw [follow_cons_of_directory hdir, follow_cons_of_directory (hentry ▸ hdir)]
      cases isTooLong piece with
      | true => exact ⟨.error .nameTooLong, rfl, rfl⟩
      | false =>
        rw [enter_eq_append_names hup.symm, enter_eq_append_names hup.symm, List.append_assoc,
          List.append_assoc]
        exact ih hdown (ns ++ names [piece])
    · refine ⟨.error .notDirectory, ?_⟩
      rw [FileTree.follow, FileTree.follow, ← hentry, hdir]
      exact ⟨rfl, rfl⟩

theorem locate (hr : Path.Inner r) (hne : Path.join m.path r ≠ [])
    (hne' : Path.join m.path' r ≠ []) : ∃ e : Except Fault Location,
      tree.locate (Path.join m.path r) = e.map (m.loc ++ ·) ∧
        tree'.locate (Path.join m.path' r) = e.map (m.loc' ++ ·) := by
  obtain ⟨hleads, hleads'⟩ := h.leads m hm
  rw [hleads.locate hr.relative hne, hleads'.locate hr.relative hne']
  split
  · exact ⟨.error .nulInPath, rfl, rfl⟩
  · simpa only [List.append_nil] using h.follow hm hr.down []

theorem entryOf (hab : m.Moved a b) : tree.entryOf a = tree'.entryOf b := by
  obtain ⟨r, hr, hbody, rfl, rfl⟩ := hab
  have hne : ∀ base, Path.join base r ≠ [] := by
    intro base heq
    rw [Path.join_eq hr.relative, List.append_eq_nil_iff] at heq
    rw [heq.1, if_pos (.inl rfl)] at heq
    exact hbody (by rw [heq.2]; rfl)
  obtain ⟨e, hlocate, hlocate'⟩ := h.locate hm hr (hne _) (hne _)
  rw [FileTree.entryOf, FileTree.entryOf, hlocate, hlocate']
  cases e with
  | error fault => rfl
  | ok ns =>
    simp only [Except.map, h.entries m hm ns]

theorem read (hab : m.Moved a b) : tree.read a = tree'.read b := by
  rw [FileTree.read, FileTree.read, h.entryOf hm hab]

theorem readText (hab : m.Moved a b) : tree.readText a = tree'.readText b := by
  rw [FileTree.readText, FileTree.readText, h.read hm hab]

theorem isFile (hab : m.Moved a b) : tree.isFile a = tree'.isFile b := by
  rw [FileTree.isFile, FileTree.isFile, h.entryOf hm hab]

theorem target (hr : Path.Inner r) (hbody : Path.bodyComponents r ≠ []) :
    ∃ e : Except Fault (Location × Text × Bool),
      tree.target (Path.join m.path r) = e.map (fun t => some (m.loc ++ t.1, t.2)) ∧
        tree'.target (Path.join m.path' r) = e.map (fun t => some (m.loc' ++ t.1, t.2)) := by
  obtain ⟨hleads, hleads'⟩ := h.leads m hm
  obtain ⟨last, before, hpieces⟩ := exists_last_piece hbody
  rw [hleads.target hr.relative hpieces, hleads'.target hr.relative hpieces]
  obtain ⟨rest, hsplit⟩ := splitOn_of_dropWhile hpieces
  have hdown : ['.', '.'] ∉ before.reverse ++ [['.']] := by
    have hup := hr.down
    rw [hsplit, List.mem_append, not_or] at hup
    simp [hup.1]
  obtain ⟨e, hfollow, hfollow'⟩ := h.follow hm hdown []
  rw [List.append_nil] at hfollow hfollow'
  rw [hfollow, hfollow']
  split
  · exact ⟨.error .nulInPath, rfl, rfl⟩
  rcases e with fault | dir
  · exact ⟨.error fault, rfl, rfl⟩
  · cases hlong : isTooLong last with
    | true => exact ⟨.error .nameTooLong, rfl, rfl⟩
    | false => exact ⟨.ok (dir, last, r.getLast? == some '/'), rfl, rfl⟩

theorem put {ns : Location} (hold : tree.entryAt (m.loc ++ ns) ≠ some .directory)
    (content : Bytes) : Mirrored places (tree.put (m.loc ++ ns) (.file content))
      (tree'.put (m.loc' ++ ns) (.file content)) := by
  have hold' : tree'.entryAt (m.loc' ++ ns) ≠ some .directory := h.entries m hm ns ▸ hold
  refine ⟨fun n hn => ?_, fun n hn ms => ?_, h.apart⟩
  · obtain ⟨hleads, hleads'⟩ := h.leads n hn
    exact ⟨hleads.put hold content, hleads'.put hold' content⟩
  · rw [entryAt_put (ne_nil_of_entryAt hold), entryAt_put (ne_nil_of_entryAt hold'),
      h.entries n hn ms]
    simp only [List.append_eq_append_iff, ← beneath?_eq_some_iff, h.apart n hn m hm,
      h.apart m hm n hn]

/-- What is written inside a directory of both trees leaves the same below all directories. -/
theorem write (hab : m.Moved a b) (content : Bytes) :
    MirroredResult places (tree.write a content) (tree'.write b content) := by
  obtain ⟨r, hr, hbody, rfl, rfl⟩ := hab
  obtain ⟨e, htarget, htarget'⟩ := h.target hm hr hbody
  rw [FileTree.write, FileTree.write, htarget, htarget']
  rcases e with fault | ⟨dir, last, slash⟩
  · exact .error fault
  simp only [Except.map]
  split
  · exact .error _
  · rw [List.append_assoc, List.append_assoc, ← h.entries m hm]
    rcases hold : tree.entryAt (m.loc ++ (dir ++ [last])) with _ | (_ | old)
    · exact .ok (h.put hm (by simp [hold]) content)
    · exact .error _
    · exact .ok (h.put hm (by simp [hold]) content)

end Mirrored

section Below

/-- The entries below a directory, each with its names from there. -/
def below (tree : FileTree) (base : Location) : List (Location × Entry) :=
  tree.entries.filterMap fun e => (beneath? base e.1).map (·, e.2)

theorem entryAt_append {ns : Location} (hne : ns ≠ []) :
    tree.entryAt (loc ++ ns) = (tree.below loc).lookup ns := by
  rw [entryAt_of_ne_nil (by simp [hne]), below]
  induction tree.entries with
  | nil => rfl
  | cons e entries ih =>
    rcases e with ⟨l, entry⟩
    rw [List.lookup_cons, List.filterMap_cons]
    cases hbelow : beneath? loc l with
    | none =>
      have hl : (loc ++ ns == l) = false := by
        refine beq_eq_false_iff_ne.mpr fun heq => ?_
        rw [beneath?_eq_some_iff.mpr heq.symm] at hbelow
        cases hbelow
      rw [hl]
      exact ih
    | some names =>
      obtain rfl := beneath?_eq_some_iff.mp hbelow
      have hsame : (loc ++ ns == loc ++ names) = (ns == names) := by
        rw [Bool.eq_iff_iff, beq_iff_eq, beq_iff_eq, List.append_cancel_left_eq]
      rw [hsame, Option.map_some, List.lookup_cons, ih]

theorem entryAt_eq_of_below {loc' : Location} (hdir : tree.entryAt loc = tree'.entryAt loc')
    (h : tree.below loc = tree'.below loc') (ns : Location) :
    tree.entryAt (loc ++ ns) = tree'.entryAt (loc' ++ ns) := by
  by_cases hne : ns = []
  · rw [hne, List.append_nil, List.append_nil, hdir]
  · rw [entryAt_append hne, entryAt_append hne, h]

theorem Mirrored.of_below {places : List Placement}
    (hleads : ∀ m ∈ places, tree.Leads m.path m.loc ∧ tree'.Leads m.path' m.loc')
    (hbelow : ∀ m ∈ places, tree.below m.loc = tree'.below m.loc')
    (hapart : ∀ m ∈ places, ∀ n ∈ places, beneath? m.loc n.loc = beneath? m.loc' n.loc') :
    Mirrored places tree tree' := by
  refine ⟨hleads, fun m hm => entryAt_eq_of_below ?_ (hbelow m hm), hapart⟩
  rw [(hleads m hm).1.exists_pieces.2.1, (hleads m hm).2.exists_pieces.2.1]

end Below

end FileTree

end SceneAudit
