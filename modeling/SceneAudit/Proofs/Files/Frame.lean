import SceneAudit.Proofs.Files.WellFormed
import SceneAudit.Proofs.Text.Utf8

/-! # What writing files leaves alone

Writing a file makes no directory and removes none, and changes no entry but the one that its path
leads to. So after any number of writes, paths still lead where they did, and a file that was not
written still has its content.
-/

namespace SceneAudit.FileTree

/-- Since tree `before`, nothing but files at some locations has been written. -/
structure Frame (written : Location → Prop) (before after : FileTree) : Prop where
  current : after.current = before.current
  directory : ∀ loc, after.entryAt loc = some .directory ↔ before.entryAt loc = some .directory
  entry : ∀ loc, ¬ written loc → after.entryAt loc = before.entryAt loc

namespace Frame

variable {written : Location → Prop} {before after after' : FileTree} {path : Text} {loc : Location}

theorem refl (written : Location → Prop) (tree : FileTree) : Frame written tree tree :=
  ⟨rfl, fun _ => Iff.rfl, fun _ _ => rfl⟩

theorem locate_iff (h : Frame written before after) :
    after.locate path = .ok loc ↔ before.locate path = .ok loc := by
  have horigin : after.origin path = before.origin path := by rw [origin, origin, h.current]
  rw [FileTree.locate_iff, FileTree.locate_iff, horigin, follow_congr h.directory]

theorem write {content : Bytes} (h : Frame written before after)
    (hwrite : after.write path content = .ok after')
    (hwritten : ∀ loc, before.locate path = .ok loc → written loc) :
    Frame written before after' := by
  obtain ⟨dir, name, hloc, -, -, hentry, rfl⟩ := write_eq_ok hwrite
  have hloc' : written (dir ++ [name]) := hwritten _ (h.locate_iff.mp hloc)
  have hne : dir ++ [name] ≠ [] := by simp
  refine ⟨h.current, fun l => ?_, fun l hl => ?_⟩
  · rw [entryAt_put hne, ← h.directory]
    split
    · rename_i heq
      rw [heq]
      simp [hentry]
    · rfl
  · rw [entryAt_put hne, if_neg, h.entry l hl]
    rintro rfl
    exact hl hloc'

theorem readText (h : Frame written before after) (hloc : before.locate path = .ok loc)
    (hkept : ¬ written loc) : after.readText path = before.readText path :=
  readText_congr (h.locate_iff.mpr hloc) hloc (h.entry loc hkept)

theorem isFile (h : Frame written before after) (hloc : before.locate path = .ok loc)
    (hkept : ¬ written loc) : after.isFile path = before.isFile path :=
  isFile_congr (h.locate_iff.mpr hloc) hloc (h.entry loc hkept)

end Frame

theorem read_of_write {tree tree' : FileTree} {path : Text} {content : Bytes}
    (h : tree.write path content = .ok tree') : tree'.read path = .ok content := by
  have hframe : Frame (fun loc => tree.locate path = .ok loc) tree tree' :=
    (Frame.refl _ tree).write h fun _ hloc => hloc
  obtain ⟨dir, name, hloc, -, -, -, rfl⟩ := write_eq_ok h
  have hne : dir ++ [name] ≠ [] := by simp
  rw [read, entryOf, hframe.locate_iff.mpr hloc]
  simp only [entryAt_put hne, if_true]

theorem readText_of_write {tree tree' : FileTree} {path t : Text}
    (h : tree.write path (Utf8.encode t) = .ok tree') : tree'.readText path = .ok t := by
  rw [readText, read_of_write h]
  simp only [Utf8.decode?_encode]

end SceneAudit.FileTree
