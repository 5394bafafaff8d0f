import Mathlib.Data.Char
import Mathlib.Data.List.Sort
import SceneAudit.Text.Order
import SceneAudit.Text.Utf8

/-! # Laws of the order of texts

The comparison of texts by code point is a linear order, and it is the comparison of their bytes: no
encoding of a character begins that of another one, and encodings are ordered as the characters are.
-/

namespace SceneAudit

namespace Text

theorem compare_eq (s t : Text) : compare s t = Ord.compare s t := by
  induction s generalizing t with
  | nil => cases t <;> rfl
  | cons c s ih =>
    cases t with
    | nil => rfl
    | cons d t =>
      rw [compare, List.compare_cons_cons, ih]
      change _ = (compareOfLessAndEq c d).then _
      have hlt : c.toNat < d.toNat ↔ c < d := Iff.rfl
      have hgt : d.toNat < c.toNat ↔ d < c := Iff.rfl
      simp only [hlt, hgt, compareOfLessAndEq]
      rcases lt_trichotomy c d with h | rfl | h
      · simp [h]
      · simp
      · simp [h, h.asymm, h.ne']

instance : Std.TransCmp compare where
  eq_swap {s t} := by
    rw [compare_eq, compare_eq]
    exact Std.OrientedOrd.eq_swap
  isLE_trans h₁ h₂ := by
    simp only [compare_eq] at *
    exact Std.TransOrd.isLE_trans h₁ h₂

instance : Std.LawfulEqCmp compare where
  compare_self := by simp [compare_eq]
  eq_of_compare h := by simpa [compare_eq] using h

@[simp] theorem compare_self (t : Text) : compare t t = .eq :=
  Std.ReflCmp.compare_self

theorem le_iff {s t : Text} : le s t = true ↔ (compare s t).isLE := by
  cases h : compare s t <;> simp [le, h]

theorem le_total (s t : Text) : le s t = true ∨ le t s = true := by
  rw [le_iff, le_iff]
  cases h : compare s t with
  | lt => exact .inl rfl
  | eq => exact .inl rfl
  | gt => exact .inr (by rw [Std.OrientedCmp.lt_of_gt h]; rfl)

theorem le_trans {s t u : Text} (hst : le s t = true) (htu : le t u = true) : le s u = true :=
  le_iff.mpr (Std.TransCmp.isLE_trans (le_iff.mp hst) (le_iff.mp htu))

theorem le_antisymm {s t : Text} (hst : le s t = true) (hts : le t s = true) : s = t :=
  Std.LawfulEqCmp.eq_of_compare (Std.OrientedCmp.isLE_antisymm (le_iff.mp hst) (le_iff.mp hts))

end Text

namespace Utf8

theorem compare_byte_lt_iff {a b : Nat} (ha : a < 256) (hb : b < 256) :
    Ord.compare (UInt8.ofNat a) (UInt8.ofNat b) = .lt ↔ a < b := by
  rw [Std.compare_eq_lt, UInt8.lt_iff_toNat_lt, UInt8.toNat_ofNat_of_lt' ha,
    UInt8.toNat_ofNat_of_lt' hb]

theorem compare_byte_eq_iff {a b : Nat} (ha : a < 256) (hb : b < 256) :
    Ord.compare (UInt8.ofNat a) (UInt8.ofNat b) = .eq ↔ a = b := by
  rw [Std.LawfulEqOrd.compare_eq_iff_eq, ← UInt8.toNat_inj, UInt8.toNat_ofNat_of_lt' ha,
    UInt8.toNat_ofNat_of_lt' hb]

theorem toNat_lt (c : Char) : c.toNat < 0x110000 := by
  have h : c.toNat < 0xD800 ∨ 0xDFFF < c.toNat ∧ c.toNat < 0x110000 := c.valid
  omega

theorem compare_encode_of_lt {c d : Char} (h : c.toNat < d.toNat) (u v : Bytes) :
    Ord.compare (encodeChar c ++ u) (encodeChar d ++ v) = .lt := by
  have hd := toNat_lt d
  unfold encodeChar
  dsimp only
  split_ifs <;>
    simp (disch := omega) only [List.cons_append, List.nil_append, List.compare_cons_cons,
      Ordering.then_eq_lt, compare_byte_lt_iff, compare_byte_eq_iff] <;>
    omega

theorem encodeChar_ne_nil (c : Char) : encodeChar c ≠ [] := by
  unfold encodeChar
  dsimp only
  split_ifs <;> simp

theorem compare_append_left (u v w : Bytes) : Ord.compare (u ++ v) (u ++ w) = Ord.compare v w := by
  induction u with
  | nil => rfl
  | cons b u ih => rw [List.cons_append, List.cons_append, List.compare_cons_cons, ih]; simp

/-- Texts are ordered by code point as they are by bytes. -/
theorem compare_encode (s t : Text) :
    Ord.compare (encode s) (encode t) = Text.compare s t := by
  induction s generalizing t with
  | nil =>
    cases t with
    | nil => rfl
    | cons d t =>
      obtain ⟨b, bs, hb⟩ := List.exists_cons_of_ne_nil (encodeChar_ne_nil d)
      simp [encode, hb, Text.compare]
  | cons c s ih =>
    cases t with
    | nil =>
      obtain ⟨b, bs, hb⟩ := List.exists_cons_of_ne_nil (encodeChar_ne_nil c)
      simp [encode, hb, Text.compare]
    | cons d t =>
      rw [Text.compare]
      split_ifs with hcd hdc
      · exact compare_encode_of_lt hcd _ _
      · exact Std.OrientedCmp.gt_of_lt (compare_encode_of_lt hdc _ _)
      · obtain rfl : c = d := Char.toNat_inj.mp (by omega)
        rw [← ih]
        exact compare_append_left (encodeChar c) _ _

end Utf8

end SceneAudit
