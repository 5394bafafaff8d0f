import SceneAudit.Proofs.Text.Blank
import SceneAudit.Proofs.Text.Decimal
import SceneAudit.Proofs.Yaml.Values

/-! # What plain scalars denote

A plain scalar that denotes a string denotes its own text. Decimal spellings of integers are
integers or, with leading zeros, strings, and identifiers are strings unless they are words for
nothing or for truth values.
-/

namespace SceneAudit.Yaml

def isLetter (c : Char) : Bool :=
  (65 ≤ c.toNat && c.toNat ≤ 90) || (97 ≤ c.toNat && c.toNat ≤ 122)

def isWordChar (c : Char) : Bool :=
  isLetter c || Text.isDigit c || c == '_' || c == '.' || c == '+' || c == '-'

theorem isWordChar_iff {c : Char} : isWordChar c = true ↔
    (65 ≤ c.toNat ∧ c.toNat ≤ 90) ∨ (97 ≤ c.toNat ∧ c.toNat ≤ 122) ∨
      (48 ≤ c.toNat ∧ c.toNat ≤ 57) ∨ c.toNat = 95 ∨ c.toNat = 46 ∨ c.toNat = 43 ∨
      c.toNat = 45 := by
  have hchar : ∀ d : Char, c = d ↔ c.toNat = d.toNat := fun d =>
    ⟨fun h => h ▸ rfl, fun h => Char.ext (UInt32.toNat_inj.mp h)⟩
  simp only [isWordChar, isLetter, Text.isDigit, Bool.or_eq_true, Bool.and_eq_true,
    decide_eq_true_eq, beq_iff_eq, hchar, or_assoc, Char.reduceToNat]

theorem isQuiet_of_isWordChar {c : Char} (h : isWordChar c = true) : isQuiet c = true := by
  have hn := isWordChar_iff.mp h
  have hne : ∀ d : Char, c.toNat ≠ d.toNat → c ≠ d := fun d hd heq => hd (heq ▸ rfl)
  have hallowed : isAllowed c = true := by
    simp only [isAllowed, Bool.or_eq_true, Bool.and_eq_true, beq_iff_eq, decide_eq_true_eq]
    omega
  have hblank : Text.isBlank c = false := by
    simp only [Text.isBlank, Bool.or_eq_false_iff, Bool.and_eq_false_iff, beq_eq_false_iff_ne,
      decide_eq_false_iff_not]
    omega
  have hflow : isFlowSign c = false := by
    simp only [isFlowSign, Bool.or_eq_false_iff, beq_eq_false_iff_ne]
    refine ⟨⟨⟨⟨?_, ?_⟩, ?_⟩, ?_⟩, ?_⟩ <;> refine hne _ ?_ <;> simp only [Char.reduceToNat] <;> omega
  have hcolon : c ≠ ':' := hne _ (by simp only [Char.reduceToNat]; omega)
  have hhash : c ≠ '#' := hne _ (by simp only [Char.reduceToNat]; omega)
  have hmark : c.toNat ≠ 0xFEFF := by omega
  simp [isQuiet, hallowed, hblank, hflow, hcolon, hhash, hmark]

theorem isIndicator_of_isWordChar {c : Char} (h : isWordChar c = true) (hdash : c ≠ '-') :
    Scanner.isIndicator c = false := by
  have hlist : ∀ d ∈ "-?:,[]\x7b\x7d#&*!|>'\"%@\x60".toList, isWordChar d = false ∨ d = '-' := by
    decide
  by_contra hindicator
  have hmem : c ∈ "-?:,[]\x7b\x7d#&*!|>'\"%@\x60".toList :=
    List.contains_iff_mem.mp (Bool.of_not_eq_false hindicator)
  rcases hlist c hmem with hc | hc
  · rw [h] at hc
    contradiction
  · exact hdash hc

section Written

variable {t : Text} (ht : ∀ c ∈ t, isWordChar c = true)

include ht

theorem isPlain_of_isWordChar (hne : t ≠ []) (hdash : t ≠ ['-']) : IsPlain t := by
  have hquiet : ∀ c ∈ t, isQuiet c = true := fun c hc => isQuiet_of_isWordChar (ht c hc)
  refine ⟨?_, fun c hc => Or.inl (hquiet c hc), ?_⟩
  · obtain ⟨c, u, rfl⟩ := List.exists_cons_of_ne_nil hne
    obtain ⟨hc, hu⟩ := List.forall_mem_cons.mp hquiet
    by_cases hc' : c = '-'
    · obtain ⟨d, v, rfl⟩ := List.exists_cons_of_ne_nil (show u ≠ [] by
        rintro rfl
        exact hdash (by rw [hc']))
      have hd : isQuiet d = true := hu d List.mem_cons_self
      rw [startsWord, hc, hc', nextIs, hd]
      rfl
    · simp [startsWord, hc, isIndicator_of_isWordChar (ht c List.mem_cons_self) hc']
  · intro hlast
    have hspace := hquiet ' ' (List.mem_of_getLast? hlast)
    exact absurd hspace (by decide)

end Written

namespace Scalar

theorem isNull_iff {t : Text} : isNull t = true ↔
    t = "null".toList ∨ t = "Null".toList ∨ t = "NULL".toList ∨ t = "~".toList := by
  simp [isNull]

theorem bool?_eq_none_iff {t : Text} : bool? t = none ↔
    ¬(t = "true".toList ∨ t = "True".toList ∨ t = "TRUE".toList ∨ t = "false".toList ∨
      t = "False".toList ∨ t = "FALSE".toList) := by
  simp only [bool?, List.any_cons, List.any_nil, Bool.or_false, Bool.or_eq_true, beq_iff_eq]
  split <;> [skip; split] <;> grind

/-- A plain scalar is refused only as an integer. -/
theorem ofPlain?_eq_none_iff {t : Text} : ofPlain? t = none ↔ integer? t = none := by
  constructor
  · intro h
    fun_cases ofPlain? t <;> simp_all [ofPlain?]
  · intro h
    have hword : ¬(t = [] ∨ isNull t = true) := by
      rw [isNull_iff]
      rintro (rfl | rfl | rfl | rfl | rfl) <;> exact absurd h (by decide)
    have hbool : bool? t = none := by
      rw [bool?_eq_none_iff]
      rintro (rfl | rfl | rfl | rfl | rfl | rfl) <;> exact absurd h (by decide)
    simp only [ofPlain?, if_neg hword, hbool, h]

theorem eq_of_ofPlain?_string {t u : Text} (h : ofPlain? t = some (.string u)) : u = t := by
  fun_cases ofPlain? t <;> simp_all [ofPlain?]

section Integers

open Text (Spells isDigit)

theorem withoutSign_of_digits {t : Text} (h : ∀ c ∈ t, isDigit c = true) : withoutSign t = t := by
  rw [withoutSign.eq_def]
  split <;> simp_all [isDigit]

theorem digits_of_digits {t : Text} (h : ∀ c ∈ t, isDigit c = true) : digits t = (10, t) := by
  rw [digits.eq_def]
  split <;> simp_all [isDigit]

theorem unboundedInteger?_of_spells {s : Text} {n : Int} (h : Spells s n)
    (hpad : isZeroPadded s = false) : unboundedInteger? s = some n := by
  have hdigits : ∀ zeros n : Nat, ∀ c ∈ List.replicate zeros '0' ++ Text.ofNat n,
      isDigit c = true := fun _ _ _ => Text.isDigit_of_mem_padded
  rw [unboundedInteger?, hpad]
  cases h with
  | unsigned zeros n =>
    have hhead : (List.replicate zeros '0' ++ Text.ofNat n).head? ≠ some '-' := by
      intro hhead
      exact absurd (hdigits zeros n '-' (List.mem_of_mem_head? hhead)) (by decide)
    simp only [withoutSign_of_digits (hdigits zeros n), digits_of_digits (hdigits zeros n),
      Text.readNat?_padded, if_neg hhead]
    rfl
  | plus zeros n =>
    simp only [withoutSign, digits_of_digits (hdigits zeros n), Text.readNat?_padded]
    rfl
  | minus zeros n =>
    simp only [withoutSign, digits_of_digits (hdigits zeros n), Text.readNat?_padded]
    rfl

theorem fits64_of_fitsSigned {n : Int} (h : Text.fitsSigned 64 n = true) : fits64 n = true := by
  have hpow : Int.pow 2 63 < Int.pow 2 64 := by decide
  simp only [Text.fitsSigned, Bool.and_eq_true, decide_eq_true_eq] at h
  simp only [fits64, Bool.and_eq_true, decide_eq_true_eq]
  exact ⟨h.1, Int.lt_trans h.2 hpow⟩

theorem ofPlain?_of_spells {s : Text} {n : Int} (h : Spells s n)
    (hn : Text.fitsSigned 64 n = true) :
    ofPlain? s = some (if isZeroPadded s then .string s else .integer n) := by
  have hno : ∀ {c : Char} {t : Text}, s = t → c ∈ t → isDigit c = false → c ≠ '+' → c ≠ '-' →
      False := by
    rintro c t rfl hc hdigit hplus hminus
    rcases h.mem hc with hc | rfl | rfl
    · rw [hdigit] at hc
      contradiction
    · exact hplus rfl
    · exact hminus rfl
  have hword : ¬(s = [] ∨ isNull s = true) := by
    rw [isNull_iff]
    rintro (heq | heq | heq | heq | heq)
    · exact h.ne_nil heq
    all_goals exact hno heq List.mem_cons_self (by decide) (by decide) (by decide)
  have hbool : bool? s = none := by
    rw [bool?_eq_none_iff]
    rintro (heq | heq | heq | heq | heq | heq) <;>
      exact hno heq List.mem_cons_self (by decide) (by decide) (by decide)
  rw [ofPlain?, if_neg hword, hbool]
  by_cases hpad : isZeroPadded s = true
  · have hnone : unboundedInteger? s = none := by rw [unboundedInteger?, if_pos hpad]
    simp only [integer?, hnone, hpad, if_true]
  · have hpad' := Bool.of_not_eq_true hpad
    simp only [integer?, unboundedInteger?_of_spells h hpad', fits64_of_fitsSigned hn, if_true,
      hpad', Bool.false_eq_true, if_false]

end Integers

theorem not_number_of_head {c : Char} {u : Text} (hdigit : Text.isDigit c = false) (hdot : c ≠ '.')
    (hplus : c ≠ '+') (hminus : c ≠ '-') :
    integer? (c :: u) = some none ∧ isZeroPadded (c :: u) = false ∧ float? (c :: u) = none := by
  have hzero : c ≠ '0' := by
    rintro rfl
    exact absurd hdigit (by decide)
  have hsign : withoutSign (c :: u) = c :: u := by
    simp [withoutSign, hplus, hminus]
  have hpad : isZeroPadded (c :: u) = false := by
    rw [isZeroPadded, hsign]
    split
    · rename_i heq
      exact absurd (List.cons.inj heq).1 hzero
    · rfl
  have hvalue : Text.readNat? 10 (c :: u) = none := by
    have hlarge : ∀ d ∈ Text.digitValue? c, 10 ≤ d := by
      simp only [Text.isDigit, Char.reduceToNat] at hdigit
      simp only [Text.digitValue?]
      grind
    rw [Text.readNat?, Text.readDigitsFrom]
    cases hd : Text.digitValue? c with
    | none => rfl
    | some d => exact if_neg (Nat.not_lt.mpr (hlarge d hd))
  have hinteger : unboundedInteger? (c :: u) = none := by
    have hbase : digits (c :: u) = (10, c :: u) := by simp [digits, hzero]
    simp only [unboundedInteger?, hpad, hsign, hbase, hvalue]
    rfl
  have hspecial : specialFloat? (c :: u) = none := by
    simp [specialFloat?, hdot, hplus, hminus]
  have hnumeral : Numeral.read? (c :: u) = none := by
    simp [Numeral.read?, Numeral.unsigned?, hplus, hminus, hdigit, hdot, Text.readNat?]
  exact ⟨by rw [integer?, hinteger], hpad, by rw [float?, hspecial, hnumeral]⟩

theorem not_number_of_letter {c : Char} {u : Text} (hc : (isLetter c || c == '_') = true) :
    integer? (c :: u) = some none ∧ isZeroPadded (c :: u) = false ∧ float? (c :: u) = none := by
  have hne : ∀ d : Char, (isLetter d || d == '_') = false → c ≠ d := by
    rintro d hd rfl
    rw [hc] at hd
    contradiction
  have hdigit : Text.isDigit c = false := by
    by_contra h
    simp only [isLetter, Text.isDigit, Char.reduceToNat, Bool.not_eq_false, Bool.and_eq_true,
      Bool.or_eq_true, decide_eq_true_eq, beq_iff_eq] at hc h
    rcases hc with hc | rfl
    · omega
    · exact absurd h (by decide)
  exact not_number_of_head hdigit (hne _ (by decide)) (hne _ (by decide)) (hne _ (by decide))

end Scalar

/-- An identifier: a letter or underscore, then letters, digits and underscores. -/
structure IsIdentifier (t : Text) : Prop where
  head : (t.head?.any fun c => isLetter c || c == '_') = true
  chars : ∀ c ∈ t, (isLetter c || Text.isDigit c || c == '_') = true

instance : DecidablePred IsIdentifier := fun t =>
  decidable_of_iff ((t.head?.any fun c => isLetter c || c == '_') = true ∧
    ∀ c ∈ t, (isLetter c || Text.isDigit c || c == '_') = true)
    ⟨fun h => ⟨h.1, h.2⟩, fun h => ⟨h.1, h.2⟩⟩

theorem IsIdentifier.exists_head {t : Text} (h : IsIdentifier t) :
    ∃ c u, t = c :: u ∧ (isLetter c || c == '_') = true := by
  cases t with
  | nil => exact absurd h.head (by decide)
  | cons c u => exact ⟨c, u, rfl, h.head⟩

theorem isName_of_isIdentifier {t : Text} (h : IsIdentifier t) (hnull : Scalar.isNull t = false)
    (hbool : Scalar.bool? t = none) : IsName t := by
  obtain ⟨c, u, rfl, hc⟩ := h.exists_head
  obtain ⟨hinteger, hpad, hfloat⟩ := Scalar.not_number_of_letter (u := u) hc
  rw [IsName, Scalar.ofPlain?, if_neg (by simp [hnull]), hbool, hinteger]
  simp only [hpad, hfloat, Bool.false_eq_true, if_false]

end SceneAudit.Yaml
