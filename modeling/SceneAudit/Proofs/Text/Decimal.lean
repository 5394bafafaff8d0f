import Mathlib.Data.List.Basic
import Mathlib.Data.List.Induction
import SceneAudit.Text.Decimal

/-! # Laws of decimal integers

An integer has many decimal spellings: a plus sign and leading zeros may be written or left out.
Reading gives the integer back from each of them and from no other text, and writing chooses one.
-/

namespace SceneAudit.Text

/-- The decimal spellings of an integer: a sign, if there is one, then leading zeros and digits. -/
inductive Spells : Text → Int → Prop where
  | unsigned (zeros n : Nat) : Spells (List.replicate zeros '0' ++ ofNat n) n
  | plus (zeros n : Nat) : Spells ('+' :: (List.replicate zeros '0' ++ ofNat n)) n
  | minus (zeros n : Nat) : Spells ('-' :: (List.replicate zeros '0' ++ ofNat n)) (-n)

theorem isDigit_of_mem_ofNat {c : Char} {n : Nat} (h : c ∈ ofNat n) : isDigit c = true := by
  have hdigit : c.isDigit = true := Nat.isDigit_of_mem_toDigits (by decide) (by decide) h
  simp only [Char.isDigit, Bool.and_eq_true, decide_eq_true_eq, ge_iff_le, UInt32.le_iff_toNat_le]
    at hdigit
  simpa [isDigit] using hdigit

theorem isDigit_of_mem_padded {c : Char} {zeros n : Nat}
    (h : c ∈ List.replicate zeros '0' ++ ofNat n) : isDigit c = true := by
  rcases List.mem_append.mp h with h | h
  · rw [List.eq_of_mem_replicate h]
    rfl
  · exact isDigit_of_mem_ofNat h

theorem digitValue?_of_isDigit {c : Char} (h : isDigit c = true) :
    digitValue? c = some (c.toNat - 48) ∧ c.toNat - 48 < 10 := by
  simp only [isDigit, Bool.and_eq_true, decide_eq_true_eq, Char.reduceToNat] at h
  refine ⟨?_, by omega⟩
  simp [digitValue?, h.1, h.2]

theorem readDigitsFrom_eq {t : Text} (h : ∀ c ∈ t, isDigit c = true) (acc : Nat) :
    readDigitsFrom 10 acc t = some (Nat.ofDigitChars 10 t acc) := by
  induction t generalizing acc with
  | nil => simp [readDigitsFrom]
  | cons c t ih =>
    obtain ⟨hc, ht⟩ := List.forall_mem_cons.mp h
    obtain ⟨hvalue, hlt⟩ := digitValue?_of_isDigit hc
    simp only [readDigitsFrom, hvalue, hlt, if_true, ih ht]
    rw [Nat.ofDigitChars_cons, Nat.mul_comm acc]
    rfl

theorem readNat?_padded (zeros n : Nat) :
    readNat? 10 (List.replicate zeros '0' ++ ofNat n) = some n := by
  have hdigit : ∀ c ∈ List.replicate zeros '0' ++ ofNat n, isDigit c = true :=
    fun c => isDigit_of_mem_padded
  have hread := readDigitsFrom_eq hdigit 0
  rw [Nat.ofDigitChars_append, Nat.ofDigitChars_replicate_zero, Nat.mul_zero, ofNat,
    Nat.ofDigitChars_ten_toDigits] at hread
  obtain ⟨c, t, ht⟩ : ∃ c t, List.replicate zeros '0' ++ ofNat n = c :: t := by
    refine List.exists_cons_of_ne_nil ?_
    simp [ofNat]
  rw [← ofNat, ht] at hread
  rw [ht, readNat?, hread]

theorem exists_ofNat_eq {c : Char} (h : isDigit c = true) : ∃ d, d < 10 ∧ ofNat d = [c] := by
  simp only [isDigit, Bool.and_eq_true, decide_eq_true_eq, Char.reduceToNat] at h
  have hlt : c.toNat - 48 < 10 := by omega
  refine ⟨c.toNat - 48, hlt, ?_⟩
  have hchar : (c.toNat - 48).digitChar = c := by
    rw [← Char.toNat_inj, Nat.toNat_digitChar_of_lt_ten hlt]
    omega
  rw [ofNat, Nat.toDigits_of_lt_base hlt, hchar]

theorem exists_padded {t : Text} (h : ∀ c ∈ t, isDigit c = true) (hne : t ≠ []) :
    ∃ zeros n, t = List.replicate zeros '0' ++ ofNat n := by
  induction t using List.reverseRecOn with
  | nil => exact absurd rfl hne
  | append_singleton t c ih =>
    obtain ⟨d, hd, hc⟩ := exists_ofNat_eq (h c (by simp))
    by_cases ht : t = []
    · exact ⟨0, d, by rw [ht, hc]; rfl⟩
    · obtain ⟨zeros, n, rfl⟩ := ih (fun x hx => h x (List.mem_append_left _ hx)) ht
      rcases Nat.eq_zero_or_pos n with rfl | hn
      · exact ⟨zeros + 1, d, by rw [List.replicate_succ', hc]; rfl⟩
      · refine ⟨zeros, 10 * n + d, ?_⟩
        rw [← hc, List.append_assoc, ofNat, ofNat, Nat.toDigits_append_toDigits (by decide) hn hd]
        rfl

theorem readInt?_padded (zeros n : Nat) :
    readInt? 10 (List.replicate zeros '0' ++ ofNat n) = some (n : Int) := by
  have hdigit : ∀ c ∈ List.replicate zeros '0' ++ ofNat n, isDigit c = true :=
    fun c => isDigit_of_mem_padded
  rw [readInt?.eq_def]
  split
  · rename_i heq
    simp [heq, isDigit] at hdigit
  · rename_i heq
    simp [heq, isDigit] at hdigit
  · rw [readNat?_padded]
    rfl

namespace Spells

variable {s : Text} {n : Int}

theorem readInt?_eq (h : Spells s n) : readInt? 10 s = some n := by
  cases h with
  | unsigned zeros n => exact readInt?_padded zeros n
  | plus zeros n =>
    rw [readInt?, readNat?_padded]
    rfl
  | minus zeros n =>
    rw [readInt?, readNat?_padded]
    rfl

theorem readInt64?_eq (h : Spells s n) (hn : fitsSigned 64 n = true) : readInt64? s = some n := by
  rw [readInt64?, h.readInt?_eq]
  exact if_pos hn

theorem mem (h : Spells s n) {c : Char} (hc : c ∈ s) : isDigit c = true ∨ c = '+' ∨ c = '-' := by
  cases h with
  | unsigned zeros n => exact Or.inl (isDigit_of_mem_padded hc)
  | plus zeros n =>
    rcases List.mem_cons.mp hc with rfl | hc
    · exact Or.inr (Or.inl rfl)
    · exact Or.inl (isDigit_of_mem_padded hc)
  | minus zeros n =>
    rcases List.mem_cons.mp hc with rfl | hc
    · exact Or.inr (Or.inr rfl)
    · exact Or.inl (isDigit_of_mem_padded hc)

theorem ne_nil (h : Spells s n) : s ≠ [] := by
  cases h <;> simp [ofNat]

end Spells

theorem isDigit_of_readDigitsFrom {t : Text} {acc n : Nat} (h : readDigitsFrom 10 acc t = some n) :
    ∀ c ∈ t, isDigit c = true := by
  induction t generalizing acc with
  | nil => simp
  | cons c t ih =>
    rw [readDigitsFrom] at h
    split at h
    · rename_i d hvalue
      split at h
      · rename_i hd
        refine List.forall_mem_cons.mpr ⟨?_, ih h⟩
        simp only [digitValue?, isDigit] at hvalue ⊢
        grind
      · contradiction
    · contradiction

theorem exists_padded_of_readNat? {t : Text} {n : Nat} (h : readNat? 10 t = some n) :
    ∃ zeros, t = List.replicate zeros '0' ++ ofNat n := by
  rcases t with _ | ⟨c, t⟩
  · contradiction
  · obtain ⟨zeros, m, ht⟩ := exists_padded (isDigit_of_readDigitsFrom h) (List.cons_ne_nil c t)
    rw [ht, readNat?_padded] at h
    exact ⟨zeros, by rw [ht, Option.some.inj h]⟩

theorem spells_of_readInt? {s : Text} {n : Int} (h : readInt? 10 s = some n) : Spells s n := by
  rw [readInt?.eq_def] at h
  split at h <;> obtain ⟨m, hm, rfl⟩ := Option.map_eq_some_iff.mp h <;>
    obtain ⟨zeros, rfl⟩ := exists_padded_of_readNat? hm
  · exact .plus zeros m
  · exact .minus zeros m
  · exact .unsigned zeros m

/-- The decimal spellings of the integers of 64 bits are all that is read as one. -/
theorem readInt64?_eq_some_iff {s : Text} {n : Int} :
    readInt64? s = some n ↔ Spells s n ∧ fitsSigned 64 n = true := by
  constructor
  · intro h
    rw [readInt64?] at h
    split at h
    · rename_i m hm
      split at h
      · rename_i hfits
        obtain rfl := Option.some.inj h
        exact ⟨spells_of_readInt? hm, hfits⟩
      · contradiction
    · contradiction
  · rintro ⟨hspells, hfits⟩
    exact hspells.readInt64?_eq hfits

theorem spells_ofInt (n : Int) : Spells (ofInt n) n := by
  cases n with
  | ofNat n => exact .unsigned 0 n
  | negSucc n => exact .minus 0 (n + 1)

theorem ofInt_injective {n m : Int} (h : ofInt n = ofInt m) : n = m := by
  have hn := (spells_ofInt n).readInt?_eq
  rw [h, (spells_ofInt m).readInt?_eq] at hn
  exact (Option.some.inj hn).symm

end SceneAudit.Text
