import SceneAudit.Hierarchy.Arena
import SceneAudit.Proofs.Sorting
import SceneAudit.Proofs.Text.Order

/-! # Laws of the order of anchors

Keys of anchors are linearly ordered. In terms of the anchors themselves, integers come first and by
value, and the others by their bytes.
-/

namespace SceneAudit

namespace AnchorKey

theorem le_total (a b : AnchorKey) : a.le b = true ∨ b.le a = true := by
  cases a <;> cases b <;> simp [le, Text.le_total, Int.le_total]

theorem le_trans {a b c : AnchorKey} (hab : a.le b = true) (hbc : b.le c = true) :
    a.le c = true := by
  cases a <;> cases b <;> cases c <;> simp only [le, decide_eq_true_eq, Bool.false_eq_true] at *
  · exact Int.le_trans hab hbc
  · exact Text.le_trans hab hbc

theorem le_antisymm {a b : AnchorKey} (hab : a.le b = true) (hba : b.le a = true) : a = b := by
  cases a <;> cases b <;> simp only [le, decide_eq_true_eq, Bool.false_eq_true] at hab hba
  · rw [Int.le_antisymm hab hba]
  · rw [Text.le_antisymm hab hba]

end AnchorKey

namespace Arena

instance : Std.Total (anchorLe · · = true) where
  total _ _ := AnchorKey.le_total _ _

instance : IsTrans Scene.Transform (anchorLe · · = true) where
  trans _ _ _ := AnchorKey.le_trans

instance : Std.Total fun a b : Scene.Transform × Nat => anchorLe a.1 b.1 = true where
  total _ _ := AnchorKey.le_total _ _

instance : IsTrans (Scene.Transform × Nat) fun a b => anchorLe a.1 b.1 = true where
  trans _ _ _ := AnchorKey.le_trans

/-- The order in which transforms with these anchors are listed: integers of 64 bits by value, then
all other texts by their bytes. -/
def Precedes (a b : Text) : Prop :=
  match Text.readInt64? a, Text.readInt64? b with
  | some m, some n => m < n
  | some _, none => True
  | none, some _ => False
  | none, none => Ord.compare (Utf8.encode a) (Utf8.encode b) = .lt

theorem precedes_iff (a b : Text) :
    Precedes a b ↔ (AnchorKey.ofAnchor b).le (AnchorKey.ofAnchor a) = false := by
  unfold Precedes AnchorKey.ofAnchor
  cases Text.readInt64? a <;> cases Text.readInt64? b <;>
    simp only [AnchorKey.le, Utf8.compare_encode, decide_eq_false_iff_not, Bool.true_eq_false]
  · rw [Text.le, bne_eq_false_iff_eq, Std.OrientedCmp.gt_iff_lt]
  · exact Int.not_le.symm

end Arena

end SceneAudit
