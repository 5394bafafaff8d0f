import SceneAudit.Files.Tree
import SceneAudit.Proofs.Text.Basic

/-! # Where paths lead

A path that can be followed leads to the location that its components spell out from where it
starts, so two spellings of one path lead to one location. What a path leads to depends on the tree
only through its directories and the entry at the end.
-/

namespace SceneAudit.FileTree

variable {tree : FileTree} {loc l : Location} {path : Text}

def move (loc : Location) : Component → Location
  | .root => []
  | .here => loc
  | .up => loc.dropLast
  | .name n => loc ++ [n]

def enter (loc : Location) (piece : Text) : Location :=
  match Path.component? piece with
  | some c => move loc c
  | none => loc

theorem enter_here (loc : Location) : enter loc ['.'] = loc :=
  rfl

theorem follow_cons_of_directory {piece : Text} {pieces : List Text}
    (h : tree.entryAt loc = some .directory) : tree.follow loc (piece :: pieces) =
      if isTooLong piece then .error .nameTooLong else tree.follow (enter loc piece) pieces := by
  rw [follow, h]
  dsimp only
  unfold enter Path.component?
  by_cases hstay : piece = [] ∨ piece = ['.']
  · have hshort : isTooLong piece = false := by rcases hstay with rfl | rfl <;> decide
    simp [hstay, hshort]
  by_cases hup : piece = ['.', '.']
  · subst hup
    have hshort : isTooLong ['.', '.'] = false := by decide
    simp [hshort, move]
  · simp [hstay, hup, move]

theorem follow_cons_iff {piece : Text} {pieces : List Text} :
    tree.follow loc (piece :: pieces) = .ok l ↔ tree.entryAt loc = some .directory ∧
      isTooLong piece = false ∧ tree.follow (enter loc piece) pieces = .ok l := by
  rcases hentry : tree.entryAt loc with _ | (_ | content)
  · simp [follow, hentry]
  · rw [follow_cons_of_directory hentry]
    cases isTooLong piece <;> simp
  · simp [follow, hentry]

theorem follow_append_iff {ps qs : List Text} :
    tree.follow loc (ps ++ qs) = .ok l ↔
      ∃ m, tree.follow loc ps = .ok m ∧ tree.follow m qs = .ok l := by
  induction ps generalizing loc with
  | nil => simp [follow]
  | cons p ps ih => simp only [List.cons_append, follow_cons_iff, ih, exists_and_left, and_assoc]

theorem follow_singleton_iff {piece : Text} :
    tree.follow loc [piece] = .ok l ↔
      tree.entryAt loc = some .directory ∧ isTooLong piece = false ∧ enter loc piece = l := by
  rw [follow_cons_iff, follow, Except.ok.injEq]

theorem follow_congr {tree' : FileTree} (h : ∀ loc, tree.entryAt loc = some .directory ↔
    tree'.entryAt loc = some .directory) {pieces : List Text} :
    tree.follow loc pieces = .ok l ↔ tree'.follow loc pieces = .ok l := by
  induction pieces generalizing loc with
  | nil => rfl
  | cons p ps ih => rw [follow_cons_iff, follow_cons_iff, h, ih]

theorem follow_mono {tree' : FileTree} (h : ∀ loc, tree.entryAt loc = some .directory →
    tree'.entryAt loc = some .directory) {pieces : List Text}
    (hfollow : tree.follow loc pieces = .ok l) : tree'.follow loc pieces = .ok l := by
  induction pieces generalizing loc with
  | nil => exact hfollow
  | cons p ps ih =>
    obtain ⟨hdir, hshort, hrest⟩ := follow_cons_iff.mp hfollow
    exact follow_cons_iff.mpr ⟨h loc hdir, hshort, ih hrest⟩

theorem follow_eq_foldl {pieces : List Text} (h : tree.follow loc pieces = .ok l) :
    l = (pieces.filterMap Path.component?).foldl move loc := by
  induction pieces generalizing loc with
  | nil => exact (Except.ok.inj h).symm
  | cons p ps ih =>
    rw [ih (follow_cons_iff.mp h).2.2, enter]
    cases hp : Path.component? p with
    | none => rw [List.filterMap_cons_none hp]
    | some c => rw [List.filterMap_cons_some hp, List.foldl_cons]

theorem locate_iff :
    tree.locate path = .ok l ↔ '\x00' ∉ path ∧ path ≠ [] ∧
      tree.follow (tree.origin path) (Text.splitOn '/' path) = .ok l := by
  unfold locate
  by_cases hnul : '\x00' ∈ path
  · simp [hnul]
  · by_cases hnil : path = []
    · simp [hnil]
    · simp [hnul, hnil]

theorem locate_eq_foldl (h : tree.locate path = .ok l) :
    l = (Path.components path).foldl move tree.current := by
  have hl := follow_eq_foldl (locate_iff.mp h).2.2
  rw [hl, Path.components, List.foldl_append, Path.bodyComponents, origin, Path.isAbsolute]
  fun_cases Path.split path with
  | case1 body => simp [Path.startComponents, Text.splitOn, Path.component?, move]
  | case2 => simp [Path.startComponents, Text.splitOn, Path.component?, move]
  | case3 body => simp [Path.startComponents, Text.splitOn, Path.component?, move]
  | case4 body hroot =>
    have hhead : path.head? ≠ some '/' := by
      intro hhead
      obtain ⟨body, rfl⟩ := List.head?_eq_some_iff.mp hhead
      exact hroot body rfl
    simp [Path.startComponents, hhead]

/-- Two spellings of one path lead to one location. -/
theorem locate_eq_of_same {p q : Text} {m : Location} (h : Path.same p q = true)
    (hp : tree.locate p = .ok l) (hq : tree.locate q = .ok m) : l = m := by
  rw [locate_eq_foldl hp, locate_eq_foldl hq, eq_of_beq h]

theorem entryOf_eq_ok_iff {e : Entry} : tree.entryOf path = .ok e ↔
    ∃ l, tree.locate path = .ok l ∧ tree.entryAt l = some e := by
  unfold entryOf
  cases tree.locate path with
  | error fault => simp
  | ok l =>
    simp only [Except.ok.injEq, exists_eq_left']
    cases tree.entryAt l <;> simp

theorem isFile_iff :
    tree.isFile path = true ↔
      ∃ l content, tree.locate path = .ok l ∧ tree.entryAt l = some (.file content) := by
  rw [exists_comm]
  simp only [← entryOf_eq_ok_iff]
  unfold isFile
  rcases tree.entryOf path with _ | (_ | content) <;> simp

theorem isDirectory_iff : tree.isDirectory path = true ↔
    ∃ l, tree.locate path = .ok l ∧ tree.entryAt l = some .directory := by
  rw [← entryOf_eq_ok_iff]
  unfold isDirectory
  rcases tree.entryOf path with _ | (_ | content) <;> simp

theorem pathExists_of_isDirectory (h : tree.isDirectory path = true) :
    tree.pathExists path = true := by
  rw [pathExists, entryOf_eq_ok_iff.mpr (isDirectory_iff.mp h)]

theorem readText_eq_ok_iff {text : Text} : tree.readText path = .ok text ↔
    ∃ l content, tree.locate path = .ok l ∧ tree.entryAt l = some (.file content) ∧
      Utf8.decode? content = some text := by
  rw [exists_comm]
  simp only [← and_assoc, exists_and_right, ← entryOf_eq_ok_iff]
  unfold readText read
  rcases tree.entryOf path with _ | (_ | content)
  · simp
  · simp
  · simp only [Except.ok.injEq, Entry.file.injEq, exists_eq_left']
    cases Utf8.decode? content <;> simp

section SameEntry

variable {tree' : FileTree} {q : Text} {m : Location} (hp : tree.locate path = .ok l)
  (hq : tree'.locate q = .ok m) (h : tree.entryAt l = tree'.entryAt m)

include hp hq h

theorem entryOf_congr : tree.entryOf path = tree'.entryOf q := by
  simp only [entryOf, hp, hq, h]

theorem readText_congr : tree.readText path = tree'.readText q := by
  simp only [readText, read, entryOf_congr hp hq h]

theorem isFile_congr : tree.isFile path = tree'.isFile q := by
  simp only [isFile, entryOf_congr hp hq h]

end SameEntry

end SceneAudit.FileTree
