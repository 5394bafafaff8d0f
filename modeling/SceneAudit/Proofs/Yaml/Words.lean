import Mathlib.Data.List.Basic
import SceneAudit.Proofs.Text.Basic
import SceneAudit.Text.Blank
import SceneAudit.Yaml.PlainScalar
import SceneAudit.Yaml.QuotedScalar
import SceneAudit.Yaml.Token

/-! # Words that stand for themselves

A quiet character ends no scalar and begins no other token wherever it stands. Scalars of quiet
characters, plain ones also with spaces inside, are read as they are written: in a block up to a
colon or the end of the line, in a flow collection up to its signs.
-/

namespace SceneAudit.Yaml

/-- A character without any meaning inside a scalar. -/
def isQuiet (c : Char) : Bool :=
  isAllowed c && !Text.isBlank c && !isFlowSign c && c != ':' && c != '#' && c.toNat != 0xFEFF

theorem isBlank_of_isGap {c : Char} (h : isGap c = true) : Text.isBlank c = true := by
  simp only [isGap, Bool.or_eq_true, beq_iff_eq] at h
  rcases h with rfl | rfl <;> rfl

theorem isBlank_of_isBreak {c : Char} (h : isBreak c = true) : Text.isBlank c = true := by
  simp only [isBreak, Bool.or_eq_true, beq_iff_eq] at h
  rcases h with (((rfl | rfl) | h) | h) | h
  · rfl
  · rfl
  all_goals simp [Text.isBlank, h]

section Quiet

variable {c : Char} (h : isQuiet c = true)

include h

theorem isAllowed_of_isQuiet : isAllowed c = true := by
  simp only [isQuiet, Bool.and_eq_true] at h
  exact h.1.1.1.1.1

theorem isBlank_of_isQuiet : Text.isBlank c = false := by
  simp only [isQuiet, Bool.and_eq_true, Bool.not_eq_true'] at h
  exact h.1.1.1.1.2

theorem isFlowSign_of_isQuiet : isFlowSign c = false := by
  simp only [isQuiet, Bool.and_eq_true, Bool.not_eq_true'] at h
  exact h.1.1.1.2

theorem ne_colon_of_isQuiet : c ≠ ':' := by
  rintro rfl
  exact absurd h (by decide)

theorem ne_hash_of_isQuiet : c ≠ '#' := by
  rintro rfl
  exact absurd h (by decide)

theorem ne_mark_of_isQuiet : c.toNat ≠ 0xFEFF := by
  simp only [isQuiet, Bool.and_eq_true, bne_iff_ne] at h
  exact h.2

theorem isGap_of_isQuiet : isGap c = false := by
  have hblank := isBlank_of_isQuiet h
  by_contra hgap
  rw [isBlank_of_isGap (Bool.of_not_eq_false hgap)] at hblank
  contradiction

theorem isBreak_of_isQuiet : isBreak c = false := by
  have hblank := isBlank_of_isQuiet h
  by_contra hbreak
  rw [isBlank_of_isBreak (Bool.of_not_eq_false hbreak)] at hblank
  contradiction

end Quiet

theorem Gap.joined_addBlank {g : Gap} (hg : g.broken = false) (c : Char) :
    (g.addBlank c).broken = false ∧ (g.addBlank c).joined = g.joined ++ [c] := by
  simp [Gap.addBlank, Gap.joined, hg]

section Plain

variable {flow : Bool} {indent index line column : Nat} {acc : Text} {gap : Option Gap}

theorem plainFrom_cons {c : Char} {t : Text} (hc : isBreak c = false) :
    plainFrom flow indent acc gap index line column (c :: t) =
      if isGap c then
        if gap.any Gap.broken && c == '\t' && column < indent then none
        else
          plainFrom flow indent acc (some ((gap.getD .empty).addBlank c)) (index + 1) line
            (column + 1) t
      else if gap.isSome && endsPlain flow indent column (c :: t) then
        some (acc.reverse, ⟨c :: t, index, line, column⟩, gap.any Gap.broken)
      else if flow && c == ':' && nextIs isAfterColonSign t then none
      else if endsWord flow (c :: t) then
        some (acc.reverse, ⟨c :: t, index, line, column⟩, gap.any Gap.broken)
      else
        plainFrom flow indent (c :: ((gap.getD .empty).joined.reverse ++ acc)) none (index + 1) line
          (column + 1) t := by
  have hne : c ≠ '\r' := by
    rintro rfl
    exact absurd hc (by decide)
  rw [plainFrom.eq_def]
  split
  · contradiction
  · rename_i heq
    exact absurd (List.cons.inj heq).1 hne
  · rename_i heq
    obtain ⟨rfl, rfl⟩ := List.cons.inj heq
    rw [if_neg (by simp [hc])]

theorem plainFrom_quiet {c : Char} {t : Text} (hc : isQuiet c = true)
    (hcol : gap = none ∨ (0 < column ∧ indent ≤ column)) :
    plainFrom flow indent acc gap index line column (c :: t) =
      plainFrom flow indent (c :: ((gap.getD .empty).joined.reverse ++ acc)) none (index + 1) line
        (column + 1) t := by
  have hends : (gap.isSome && endsPlain flow indent column (c :: t)) = false := by
    rcases hcol with rfl | ⟨hcol, hindent⟩
    · rfl
    · simp only [endsPlain, nextIs, Bool.or_eq_false_iff, Bool.and_eq_false_iff,
        beq_eq_false_iff_ne, decide_eq_false_iff_not]
      exact Or.inr ⟨⟨Or.inr (by omega), Or.inl (by omega)⟩, ne_hash_of_isQuiet hc⟩
  have hword : endsWord flow (c :: t) = false := by
    simp [endsWord, ne_colon_of_isQuiet hc, isFlowSign_of_isQuiet hc]
  rw [plainFrom_cons (isBreak_of_isQuiet hc), isGap_of_isQuiet hc, hends, hword]
  simp [ne_colon_of_isQuiet hc]

theorem plainFrom_space {t : Text} :
    plainFrom flow indent acc gap index line column (' ' :: t) =
      plainFrom flow indent acc (some ((gap.getD .empty).addBlank ' ')) (index + 1) line
        (column + 1) t := by
  rw [plainFrom_cons (by decide)]
  simp [isGap]

theorem plainFrom_word {t : Text} (ht : ∀ c ∈ t, isQuiet c = true) (rest : Text) :
    plainFrom flow indent acc none index line column (t ++ rest) =
      plainFrom flow indent (t.reverse ++ acc) none (index + t.length) line (column + t.length)
        rest := by
  induction t generalizing acc index column with
  | nil => rfl
  | cons c t ih =>
    obtain ⟨hc, htail⟩ := List.forall_mem_cons.mp ht
    rw [List.cons_append, plainFrom_quiet hc (Or.inl rfl), ih htail]
    simp only [Option.getD_none, Gap.joined, Gap.empty, List.reverse_nil, List.nil_append,
      List.reverse_cons, List.append_assoc, List.singleton_append, List.length_cons,
      Bool.false_eq_true, if_false]
    congr 1 <;> omega

theorem plainFrom_append {t : Text} (ht : ∀ c ∈ t, isQuiet c = true ∨ c = ' ')
    (hlast : t.getLast? ≠ some ' ') (hne : t ≠ []) (hgap : (gap.getD .empty).broken = false)
    (hcol : 0 < column) (hindent : indent ≤ column) (rest : Text) :
    plainFrom flow indent acc gap index line column (t ++ rest) =
      plainFrom flow indent (t.reverse ++ ((gap.getD .empty).joined.reverse ++ acc)) none
        (index + t.length) line (column + t.length) rest := by
  induction t generalizing acc gap index column with
  | nil => exact absurd rfl hne
  | cons c t ih =>
    obtain ⟨hc, htail⟩ := List.forall_mem_cons.mp ht
    have hindex : index + (c :: t).length = index + 1 + t.length := by
      rw [List.length_cons]
      omega
    have hcolumn : column + (c :: t).length = column + 1 + t.length := by
      rw [List.length_cons]
      omega
    rw [List.cons_append, hindex, hcolumn]
    rcases t with _ | ⟨d, t⟩
    · have hquiet : isQuiet c = true := hc.resolve_right fun h => hlast (by rw [h]; rfl)
      rw [plainFrom_quiet hquiet (Or.inr ⟨hcol, hindent⟩)]
      rfl
    · have hlast' : (d :: t).getLast? ≠ some ' ' := by rwa [List.getLast?_cons_cons] at hlast
      rcases hc with hc | rfl
      · rw [plainFrom_quiet hc (Or.inr ⟨hcol, hindent⟩),
          ih htail hlast' (List.cons_ne_nil d t) rfl (by omega) (by omega)]
        simp [Gap.joined, Gap.empty]
      · obtain ⟨hbroken, hjoined⟩ := Gap.joined_addBlank hgap ' '
        have hgap' : ((some ((gap.getD .empty).addBlank ' ')).getD .empty).broken = false := hbroken
        rw [plainFrom_space,
          ih htail hlast' (List.cons_ne_nil d t) hgap' (by omega) (by omega),
          Option.getD_some, hjoined]
        simp

theorem plainFrom_colon {t : Text} (ht : atWordEnd t = true) :
    plainFrom flow indent acc none index line column (':' :: t) =
      some (acc.reverse, ⟨':' :: t, index, line, column⟩, false) := by
  have hsign : nextIs isAfterColonSign t = false := by
    rcases t with _ | ⟨c, t⟩
    · rfl
    · simp only [atWordEnd, isGap, isBreak, Bool.or_eq_true, beq_iff_eq] at ht
      rcases ht with (rfl | rfl) | ((((rfl | rfl) | h) | h) | h)
      iterate 4 rfl
      all_goals
        simp only [nextIs, isAfterColonSign, isFlowSign, Bool.or_eq_false_iff, beq_eq_false_iff_ne]
        refine ⟨⟨⟨⟨⟨?_, ?_⟩, ?_⟩, ?_⟩, ?_⟩, ?_⟩ <;> rintro rfl <;> simp at h
  rw [plainFrom_cons (by decide)]
  simp [isGap, endsWord, ht, hsign]

theorem plainFrom_flowSign {c : Char} {t : Text} (hc : isFlowSign c = true) :
    plainFrom true indent acc none index line column (c :: t) =
      some (acc.reverse, ⟨c :: t, index, line, column⟩, false) := by
  simp only [isFlowSign, Bool.or_eq_true, beq_iff_eq] at hc
  rcases hc with (((rfl | rfl) | rfl) | rfl) | rfl <;>
    simp [plainFrom_cons, isBreak, isGap, endsWord, isFlowSign]

end Plain

/-- The rest of a text begins at the start of a line, and the first character on it stands at most
at column `k`. -/
inductive Outdented (k : Nat) : Text → Prop where
  | nothing : Outdented k []
  | line (j : Nat) (c : Char) (t : Text) (hj : j ≤ k) (hc : isQuiet c = true) :
      Outdented k (List.replicate j ' ' ++ c :: t)

namespace Outdented

variable {k : Nat} {more : Text}

theorem mono {k' : Nat} (h : Outdented k more) (hk : k ≤ k') : Outdented k' more := by
  cases h with
  | nothing => exact .nothing
  | line j c t hj hc => exact .line j c t (Nat.le_trans hj hk) hc

end Outdented

section LineEnd

variable {indent index line column : Nat} {acc : Text} {g : Gap}

theorem plainFrom_indent (hg : g.broken = true) (j : Nat) (t : Text) :
    plainFrom false indent acc (some g) index line column (List.replicate j ' ' ++ t) =
      plainFrom false indent acc (some g) (index + j) line (column + j) t := by
  induction j generalizing index column with
  | zero => rfl
  | succ j ih =>
    have hblank : g.addBlank ' ' = g := by simp [Gap.addBlank, hg]
    rw [List.replicate_succ, List.cons_append, plainFrom_space, Option.getD_some, hblank, ih]
    congr 1 <;> omega

theorem plainFrom_lineEnd {more : Text} {k : Nat} (hmore : Outdented k more) (hk : k < indent) :
    ∃ j t, more = List.replicate j ' ' ++ t ∧
      plainFrom false indent acc none index line column ('\n' :: more) =
        some (acc.reverse, ⟨t, index + 1 + j, line + 1, j⟩, true) := by
  have hfeed : plainFrom false indent acc none index line column ('\n' :: more) =
      plainFrom false indent acc (some ⟨[], true, ['\n'], []⟩) (index + 1) (line + 1) 0 more := by
    rw [plainFrom.eq_def]
    simp [isBreak, Gap.addBreak, Gap.empty, breakText]
  rw [hfeed]
  cases hmore with
  | nothing => exact ⟨0, [], rfl, rfl⟩
  | line j c t hj hc =>
    have hends : endsPlain false indent j (c :: t) = true := by
      simp only [endsPlain, Bool.not_false, Bool.true_and, Bool.or_eq_true, decide_eq_true_eq]
      exact Or.inl (Or.inl (by omega))
    refine ⟨j, c :: t, rfl, ?_⟩
    rw [plainFrom_indent rfl, plainFrom_cons (isBreak_of_isQuiet hc), isGap_of_isQuiet hc,
      Nat.zero_add, hends]
    rfl

end LineEnd

def isQuotable (c : Char) : Bool :=
  isQuiet c && c != '\'' && c != '"' && c != '\\'

theorem isQuotable_iff {c : Char} :
    isQuotable c = true ↔ isQuiet c = true ∧ c ≠ '\'' ∧ c ≠ '"' ∧ c ≠ '\\' := by
  simp [isQuotable, and_assoc]

section Quoted

variable {index line column : Nat} {acc : Text}

theorem singleFrom_quotable {c : Char} {t : Text} (hc : isQuotable c = true) (hcol : 0 < column) :
    singleFrom acc none index line column (c :: t) =
      singleFrom (c :: acc) none (index + 1) line (column + 1) t := by
  obtain ⟨hquiet, hsingle, -⟩ := isQuotable_iff.mp hc
  have hbreak := isBreak_of_isQuiet hquiet
  rw [singleFrom.eq_def]
  split
  · contradiction
  · rename_i heq
    rw [(List.cons.inj heq).1] at hbreak
    exact absurd hbreak (by decide)
  · rename_i heq
    exact absurd (List.cons.inj heq).1 hsingle
  · rename_i heq
    obtain ⟨rfl, rfl⟩ := List.cons.inj heq
    have hne : column ≠ 0 := by omega
    simp [hbreak, isGap_of_isQuiet hquiet, hne, hsingle, closeGap, Gap.joined, Gap.empty]

theorem doubleFrom_quotable {c : Char} {t : Text} (hc : isQuotable c = true) (hcol : 0 < column) :
    doubleFrom acc none index line column (c :: t) =
      doubleFrom (c :: acc) none (index + 1) line (column + 1) t := by
  obtain ⟨hquiet, -, hdouble, hescape⟩ := isQuotable_iff.mp hc
  have hbreak := isBreak_of_isQuiet hquiet
  rw [doubleFrom.eq_def]
  split
  · contradiction
  · rename_i heq
    rw [(List.cons.inj heq).1] at hbreak
    exact absurd hbreak (by decide)
  iterate 5
    rename_i heq
    exact absurd (List.cons.inj heq).1 hescape
  rename_i heq
  obtain ⟨rfl, rfl⟩ := List.cons.inj heq
  have hne : column ≠ 0 := by omega
  simp [hbreak, isGap_of_isQuiet hquiet, hne, hdouble, hescape, closeGap, Gap.joined, Gap.empty]

variable {t : Text} (ht : ∀ c ∈ t, isQuotable c = true) (hcol : 0 < column)

include ht hcol

theorem singleFrom_append {rest : Text} (hrest : rest.head? ≠ some '\'') :
    singleFrom acc none index line column (t ++ '\'' :: rest) =
      some (acc.reverse ++ t,
        ⟨rest, index + t.length + 1, line, column + t.length + 1⟩) := by
  induction t generalizing acc index column with
  | nil =>
    have hne : column ≠ 0 := by omega
    rw [List.nil_append, singleFrom.eq_def]
    split
    · contradiction
    · rename_i heq
      exact absurd (List.cons.inj heq).1 (by decide)
    · rename_i heq
      rw [(List.cons.inj heq).2] at hrest
      exact absurd rfl hrest
    · rename_i heq
      obtain ⟨rfl, rfl⟩ := List.cons.inj heq
      simp [isBreak, isGap, closeGap, Gap.joined, Gap.empty, hne]
  | cons c t ih =>
    obtain ⟨hc, htail⟩ := List.forall_mem_cons.mp ht
    rw [List.cons_append, singleFrom_quotable hc hcol, ih htail (by omega)]
    simp only [List.reverse_cons, List.append_assoc, List.singleton_append, List.length_cons]
    congr 3 <;> omega

theorem doubleFrom_append (rest : Text) :
    doubleFrom acc none index line column (t ++ '"' :: rest) =
      some (acc.reverse ++ t,
        ⟨rest, index + t.length + 1, line, column + t.length + 1⟩) := by
  induction t generalizing acc index column with
  | nil =>
    have hne : column ≠ 0 := by omega
    rw [List.nil_append, doubleFrom.eq_def]
    simp [isBreak, isGap, closeGap, Gap.joined, Gap.empty, hne]
  | cons c t ih =>
    obtain ⟨hc, htail⟩ := List.forall_mem_cons.mp ht
    rw [List.cons_append, doubleFrom_quotable hc hcol, ih htail (by omega)]
    simp only [List.reverse_cons, List.append_assoc, List.singleton_append, List.length_cons]
    congr 3 <;> omega

end Quoted

end SceneAudit.Yaml
