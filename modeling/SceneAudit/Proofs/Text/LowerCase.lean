import Mathlib.Data.List.TakeDrop
import SceneAudit.Text.LowerCase

/-! # Laws of lower case

Lowering a text does not depend on the case in which its ASCII letters are written. Both forms of a
letter lower to the same character, and they are alike to the rule of the final sigma, which asks of
a neighbour whether it is a cased letter and whether it is looked through.
-/

namespace SceneAudit.Text

/-- Texts that differ at most in the case of ASCII letters. -/
def Recased (s t : Text) : Prop :=
  s.map Char.toLower = t.map Char.toLower

instance : DecidableRel Recased := fun s t =>
  inferInstanceAs (Decidable (s.map Char.toLower = t.map Char.toLower))

theorem Recased.refl (s : Text) : Recased s s :=
  rfl

section Letters

@[elab_as_elim]
theorem forall_of_capitals {motive : Char → Prop}
    (hlower : ∀ c : Char, c.toLower = c → motive c)
    (hcapitals : ∀ n < 26, motive (Char.ofNat (65 + n))) (c : Char) : motive c := by
  by_cases h : 65 ≤ c.toNat ∧ c.toNat ≤ 90
  · have hc := hcapitals (c.toNat - 65) (by omega)
    rwa [Nat.add_sub_cancel' h.1, Char.ofNat_toNat] at hc
  · exact hlower c (dif_neg h)

theorem isCased_toLower (c : Char) : isCased c.toLower = isCased c :=
  forall_of_capitals (fun c h => by rw [h]) (by decide) c

theorem isIgnorable_letter {c : Char}
    (hc : 65 ≤ c.toNat ∧ c.toNat ≤ 90 ∨ 97 ≤ c.toNat ∧ c.toNat ≤ 122) :
    isIgnorable c = false := by
  have hranges : ∀ r ∈ ignorableRanges, r.2 < 65 ∨ 90 < r.1 ∧ (r.2 < 97 ∨ 122 < r.1) := by
    decide +kernel
  rw [isIgnorable, inRanges, List.any_eq_false]
  intro r hr
  have := hranges r hr
  simp only [Bool.and_eq_true, decide_eq_true_eq]
  omega

theorem isIgnorable_toLower (c : Char) : isIgnorable c.toLower = isIgnorable c := by
  refine forall_of_capitals (fun c h => by rw [h]) (fun n hn => ?_) c
  have hcodes : ∀ n < 26, (Char.ofNat (65 + n)).toLower.toNat = 97 + n ∧
      (Char.ofNat (65 + n)).toNat = 65 + n := by decide
  obtain ⟨hlower, hcapital⟩ := hcodes n hn
  rw [isIgnorable_letter (.inr (by omega)), isIgnorable_letter (.inl (by omega))]

theorem lowerChar_toLower (c : Char) : lowerChar c.toLower = lowerChar c :=
  forall_of_capitals (fun c h => by rw [h]) (by decide) c

theorem toLower_eq_sigma_iff (c : Char) : c.toLower.toNat = 0x3A3 ↔ c.toNat = 0x3A3 :=
  forall_of_capitals (fun c h => by rw [h]) (by decide) c

theorem toLower_eq_underscore_iff (c : Char) : c.toLower = '_' ↔ c = '_' :=
  forall_of_capitals (fun c h => by rw [h]) (by decide) c

end Letters

theorem meetsCased_map_toLower (t : Text) : meetsCased (t.map Char.toLower) = meetsCased t := by
  have hskip : (t.map Char.toLower).dropWhile isIgnorable =
      (t.dropWhile isIgnorable).map Char.toLower := by
    rw [List.dropWhile_map]
    congr 2
    exact funext isIgnorable_toLower
  rw [meetsCased, meetsCased, hskip]
  cases t.dropWhile isIgnorable with
  | nil => rfl
  | cons c t => exact isCased_toLower c

theorem lowerFrom_map_toLower (afterCased : Bool) (t : Text) :
    lowerFrom afterCased (t.map Char.toLower) = lowerFrom afterCased t := by
  induction t generalizing afterCased with
  | nil => rfl
  | cons c t ih =>
    simp only [List.map_cons, lowerFrom, toLower_eq_sigma_iff, isCased_toLower,
      isIgnorable_toLower, lowerChar_toLower, meetsCased_map_toLower, ih]

theorem Recased.lower_eq {s t : Text} (h : Recased s t) : lower s = lower t := by
  rw [lower, lower, ← lowerFrom_map_toLower, h, lowerFrom_map_toLower]

end SceneAudit.Text
