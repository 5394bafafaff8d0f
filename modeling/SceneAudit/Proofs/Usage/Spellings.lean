import Mathlib.Data.List.Forall2
import SceneAudit.Proofs.Text.Basic
import SceneAudit.Proofs.Text.LowerCase
import SceneAudit.Usage.Policy

/-! # Spellings of a name

A name may be written in any case of its ASCII letters, behind any number of underscores, and behind
the mark `m_` as well. All these spellings are compared as one name, so that it makes no difference
to a verdict in which of them a field is serialized. A name that begins with the mark itself, in
either case, is left out: what follows the mark is what it spells.
-/

namespace SceneAudit

namespace MemberName

/-- The name begins with the mark, in either case of its letter. -/
def IsMarked (name : Text) : Prop :=
  ['m', '_'] <+: name ∨ ['M', '_'] <+: name

instance : DecidablePred IsMarked := fun name =>
  inferInstanceAs (Decidable (['m', '_'] <+: name ∨ ['M', '_'] <+: name))

/-- The ways to write a name. -/
inductive Spells (name : Text) : Text → Prop where
  | bare (k : Nat) {other : Text} (h : Text.Recased name other) :
      Spells name (List.replicate k '_' ++ other)
  | marked (k : Nat) {other : Text} (h : Text.Recased name other) :
      Spells name (['m', '_'] ++ (List.replicate k '_' ++ other))

/-- Fields that are the same, or two spellings of one name. -/
def Interchangeable (f g : Text) : Prop :=
  f = g ∨ ∃ name, ¬ IsMarked name ∧ Spells name f ∧ Spells name g

variable {name other : Text}

theorem toLower_eq_m_iff (c : Char) : c.toLower = 'm' ↔ c = 'm' ∨ c = 'M' := by
  refine Text.forall_of_capitals (fun c h => ?_) (by decide) c
  have hcapital : c ≠ 'M' := by
    rintro rfl
    exact absurd h (by decide)
  simp [h, hcapital]

theorem isMarked_iff : IsMarked name ↔ ['m', '_'] <+: name.map Char.toLower := by
  rcases name with _ | ⟨c, _ | ⟨d, name⟩⟩
  · simp [IsMarked]
  · simp [IsMarked, List.cons_prefix_cons]
  · simp only [IsMarked, List.map_cons, List.cons_prefix_cons, List.nil_prefix, and_true,
      eq_comm (a := 'm'), eq_comm (a := 'M'), eq_comm (a := '_'), toLower_eq_m_iff,
      Text.toLower_eq_underscore_iff, ← or_and_right]

theorem isMarked_of_recased (h : Text.Recased name other) (hmarked : IsMarked other) :
    IsMarked name := by
  rw [isMarked_iff] at hmarked ⊢
  rwa [h]

theorem not_isMarked_replicate {k : Nat} (h : ¬ IsMarked name) :
    ¬ IsMarked (List.replicate k '_' ++ name) := by
  cases k with
  | zero => exact h
  | succ k =>
    rintro (⟨t, ht⟩ | ⟨t, ht⟩) <;> simp [List.replicate_succ] at ht

theorem normalize_of_not_isMarked (h : ¬ IsMarked name) :
    normalize name = Text.lower (name.dropWhile (· = '_')) := by
  have hnone : Text.dropStart? ['m', '_'] name = none := by
    by_contra hsome
    obtain ⟨rest, hrest⟩ := Option.ne_none_iff_exists'.mp hsome
    exact h (.inl ⟨rest, (Text.dropStart?_eq_some_iff.mp hrest).symm⟩)
  rw [normalize, withoutMark, hnone, Option.getD_none]

theorem normalize_marked (name : Text) :
    normalize (['m', '_'] ++ name) = Text.lower (name.dropWhile (· = '_')) := by
  rw [normalize, withoutMark, Text.dropStart?_append, Option.getD_some]

theorem dropWhile_underscores (k : Nat) (name : Text) :
    (List.replicate k '_' ++ name).dropWhile (· = '_') = name.dropWhile (· = '_') := by
  refine List.dropWhile_append_of_pos fun c hc => ?_
  exact decide_eq_true (List.eq_of_mem_replicate hc)

theorem recased_dropWhile (h : Text.Recased name other) :
    Text.Recased (name.dropWhile (· = '_')) (other.dropWhile (· = '_')) := by
  have hdrop : ∀ t : Text, (t.dropWhile (· = '_')).map Char.toLower =
      (t.map Char.toLower).dropWhile (· = '_') := by
    intro t
    rw [List.dropWhile_map]
    simp only [Function.comp_def, Text.toLower_eq_underscore_iff]
  rw [Text.Recased, hdrop, hdrop, h]

theorem normalize_of_spells (hname : ¬ IsMarked name) {f : Text} (h : Spells name f) :
    normalize f = normalize name := by
  have hbare : ∀ {k : Nat} {other : Text}, Text.Recased name other →
      Text.lower ((List.replicate k '_' ++ other).dropWhile (· = '_')) = normalize name := by
    intro k other hother
    rw [dropWhile_underscores, normalize_of_not_isMarked hname, (recased_dropWhile hother).lower_eq]
  cases h with
  | bare k hother =>
    have hplain := not_isMarked_replicate (k := k) fun h => hname (isMarked_of_recased hother h)
    rw [normalize_of_not_isMarked hplain, hbare hother]
  | marked k hother => rw [normalize_marked, hbare hother]

theorem Interchangeable.normalize_eq {f g : Text} (h : Interchangeable f g) :
    normalize f = normalize g := by
  obtain rfl | ⟨name, hname, hf, hg⟩ := h
  · rfl
  · rw [normalize_of_spells hname hf, normalize_of_spells hname hg]

end MemberName

namespace SymbolTable

open MemberName

theorem matchesAny_eq_of_normalize (table : SymbolTable) {fields fields' : List Text}
    (h : fields.map normalize = fields'.map normalize) :
    table.matchesAny fields = table.matchesAny fields' := by
  have hmap : ∀ fields : List Text,
      table.matchesAny fields = (fields.map normalize).any table.symbols.contains := by
    intro fields
    rw [List.any_map]
    rfl
  rw [hmap, hmap, h]

end SymbolTable

open MemberName

/-- A name that does not begin with the mark is compared alike in all its spellings: in any case of
its ASCII letters, behind any number of underscores, with or without the mark in front of these. No
table and no verdict tells two lists of fields apart that differ in the spellings of names. -/
theorem spellings_match :
    (∀ name, ¬ IsMarked name → ∀ (k : Nat) (other : Text), Text.Recased name other →
      normalize (['m', '_'] ++ (List.replicate k '_' ++ other)) =
          normalize (List.replicate k '_' ++ other) ∧
        normalize (List.replicate k '_' ++ other) = normalize name) ∧
    ∀ (table : SymbolTable) (fields fields' : List Text),
      List.Forall₂ Interchangeable fields fields' →
        table.matchesAny fields = table.matchesAny fields' ∧
          table.decide .strict fields = table.decide .strict fields' := by
  refine ⟨fun name hname k other hother => ?_, fun table fields fields' h => ?_⟩
  · have hbare := normalize_of_spells hname (.bare k hother)
    have hmarked := normalize_of_spells hname (.marked k hother)
    exact ⟨hmarked.trans hbare.symm, hbare⟩
  · have hmap : List.Forall₂ Eq (fields.map normalize) (fields'.map normalize) :=
      List.forall₂_map_left_iff.mpr (List.forall₂_map_right_iff.mpr
        (h.imp fun _ _ => Interchangeable.normalize_eq))
    rw [List.forall₂_eq_eq_eq] at hmap
    have hmatches := table.matchesAny_eq_of_normalize hmap
    refine ⟨hmatches, ?_⟩
    rw [SymbolTable.decide, SymbolTable.decide, hmatches]

-- A capital letter makes no mark, so that a name beginning with the mark has spellings that differ.
example : normalize "M_Speed".toList = "m_speed".toList ∧
    normalize "m_Speed".toList = "speed".toList := by decide +kernel

/-- A name with a final sigma, and a capital one inside, in two spellings. -/
theorem spellings_match_of_sigma :
    let name := "Speed_ΟΣΟΣ".toList
    let other := "sPEED_ΟΣΟΣ".toList
    let table : SymbolTable := ⟨true, ["speed_οσος".toList]⟩
    let fields := ["hp".toList, '_' :: name]
    let fields' := ["hp".toList, ['m', '_'] ++ (List.replicate 2 '_' ++ other)]
    (¬ IsMarked name ∧ Text.Recased name other ∧
      normalize (['m', '_'] ++ (List.replicate 2 '_' ++ other)) =
        normalize (List.replicate 2 '_' ++ other) ∧
      normalize (List.replicate 2 '_' ++ other) = normalize name) ∧
    List.Forall₂ Interchangeable fields fields' ∧ table.matchesAny fields' = true ∧
      table.matchesAny fields = table.matchesAny fields' ∧
      table.decide .strict fields = table.decide .strict fields' := by
  intro name other table fields fields'
  have hname : ¬ IsMarked name := by decide
  have hother : Text.Recased name other := by decide
  have hfields : List.Forall₂ Interchangeable fields fields' :=
    .cons (.inl rfl) (.cons (.inr ⟨name, hname, .bare 1 (.refl name), .marked 2 hother⟩) .nil)
  have hmatches : table.matchesAny fields' = true := by decide +kernel
  exact ⟨⟨hname, hother, spellings_match.1 name hname 2 other hother⟩, hfields, hmatches,
    spellings_match.2 table fields fields' hfields⟩

end SceneAudit
