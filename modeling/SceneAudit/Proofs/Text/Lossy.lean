import SceneAudit.Proofs.Text.Utf8
import SceneAudit.Text.Lossy

/-! # What is kept when bytes are read as text

The bytes of a text are read as that text. Other bytes leave a U+FFFD behind, so that text without
one tells the bytes it was read from, and no character but U+FFFD is read that is not there.
-/

namespace SceneAudit.Utf8

variable {bytes rest : Bytes} {c d : Char} {n : Nat}

theorem length_encodeChar (c : Char) : (encodeChar c).length ∈ [1, 2, 3, 4] := by
  unfold encodeChar
  dsimp only
  split_ifs <;> simp

theorem decode?_eq_singleton_iff : decode? bytes = some [c] ↔ bytes = encodeChar c := by
  rw [decode?_eq_some_iff, encode_cons, encode, List.flatMap_nil, List.append_nil]

theorem eq_of_encodeChar_eq_append (h : encodeChar c = encodeChar d ++ rest) : rest = [] := by
  have hdecode := congrArg decode? h
  rw [decode?_eq_singleton_iff.mpr rfl, decode?_encodeChar, eq_comm, Option.map_eq_some_iff]
    at hdecode
  obtain ⟨t, ht, heq⟩ := hdecode
  rw [(List.cons.inj heq).2] at ht
  exact decode?_eq_some_iff.mp ht

theorem eq_of_first? (h : first? bytes = some (c, n)) : bytes = encodeChar c ++ bytes.drop n := by
  obtain ⟨m, -, hm⟩ := List.exists_of_findSome?_eq_some h
  split at hm
  · rename_i d hd
    obtain ⟨rfl, rfl⟩ := Prod.mk.inj (Option.some.inj hm)
    rw [← decode?_eq_singleton_iff.mp hd, List.take_append_drop]
  · exact nomatch hm

theorem first?_encodeChar (c : Char) (rest : Bytes) :
    first? (encodeChar c ++ rest) = some (c, (encodeChar c).length) := by
  obtain ⟨before, after, hsplit⟩ := List.append_of_mem (length_encodeChar c)
  have hsorted : (before ++ (encodeChar c).length :: after).Pairwise (· < ·) := by
    rw [← hsplit]
    decide
  refine List.findSome?_eq_some_iff.mpr ⟨before, _, after, hsplit, ?_, fun n hn => ?_⟩
  · rw [List.take_left, decode?_eq_singleton_iff.mpr rfl]
  · have hlt : n < (encodeChar c).length :=
      (List.pairwise_append.mp hsorted).2.2 n hn _ List.mem_cons_self
    rw [List.take_append_of_le_length (Nat.le_of_lt hlt)]
    split
    · rename_i d hd
      have hcut := (List.take_append_drop n (encodeChar c)).symm
      rw [decode?_eq_singleton_iff.mp hd] at hcut
      have hshort := List.drop_eq_nil_iff.mp (eq_of_encodeChar_eq_append hcut)
      omega
    · rfl

theorem lossyFrom_eq (skip : Nat) (bytes : Bytes) :
    lossyFrom skip bytes = decodeLossy (bytes.drop skip) := by
  induction skip generalizing bytes with
  | zero => rfl
  | succ skip ih =>
    cases bytes with
    | nil => rfl
    | cons b bytes => rw [lossyFrom, ih, List.drop_succ_cons]

theorem decodeLossy_encodeChar (c : Char) (rest : Bytes) :
    decodeLossy (encodeChar c ++ rest) = c :: decodeLossy rest := by
  have hfirst := first?_encodeChar c rest
  have hdrop : (encodeChar c ++ rest).drop (encodeChar c).length = rest := List.drop_left
  obtain ⟨b, bytes, hb⟩ : ∃ b bytes, encodeChar c = b :: bytes := by
    have hlength := length_encodeChar c
    cases hc : encodeChar c with
    | nil => simp [hc] at hlength
    | cons b bytes => exact ⟨b, bytes, rfl⟩
  rw [hb] at hfirst hdrop ⊢
  rw [List.cons_append] at hfirst hdrop ⊢
  rw [List.length_cons, List.drop_succ_cons] at hdrop
  rw [decodeLossy, lossyFrom, hfirst]
  dsimp only
  rw [lossyFrom_eq, List.length_cons, Nat.add_sub_cancel, hdrop]

/-- Bytes are read a character at a time, or some of them are replaced. -/
theorem decodeLossy_induct {motive : Bytes → Text → Prop} (nil : motive [] [])
    (character : ∀ c rest, motive rest (decodeLossy rest) →
      motive (encodeChar c ++ rest) (c :: decodeLossy rest))
    (broken : ∀ broken rest, broken ≠ [] → motive rest (decodeLossy rest) →
      motive (broken ++ rest) (replacement :: decodeLossy rest)) (bytes : Bytes) :
    motive bytes (decodeLossy bytes) := by
  induction hlength : bytes.length using Nat.strongRecOn generalizing bytes with
  | ind length ih =>
    cases bytes with
    | nil => exact nil
    | cons b bytes =>
      cases hfirst : first? (b :: bytes) with
      | some p =>
        obtain ⟨c, n⟩ := p
        have hcut := eq_of_first? hfirst
        have hlt : ((b :: bytes).drop n).length < length := by
          have hpositive := length_encodeChar c
          have hsum := congrArg List.length hcut
          rw [List.length_append] at hsum
          simp only [List.mem_cons, List.not_mem_nil, or_false] at hpositive
          omega
        rw [hcut, decodeLossy_encodeChar]
        exact character c _ (ih _ hlt _ rfl)
      | none =>
        rw [decodeLossy, lossyFrom, hfirst]
        dsimp only
        rw [lossyFrom_eq]
        generalize brokenLength (b :: bytes) - 1 = k
        have hlt : (bytes.drop k).length < length := by
          rw [List.length_cons] at hlength
          rw [List.length_drop]
          omega
        have hcut : b :: bytes = (b :: bytes.take k) ++ bytes.drop k := by
          rw [List.cons_append, List.take_append_drop]
        rw [hcut]
        exact broken _ _ (List.cons_ne_nil _ _) (ih _ hlt _ rfl)

@[simp] theorem decodeLossy_encode (t : Text) : decodeLossy (encode t) = t := by
  induction t with
  | nil => rfl
  | cons c t ih => rw [encode_cons, decodeLossy_encodeChar, ih]

theorem encode_decodeLossy (h : replacement ∉ decodeLossy bytes) :
    encode (decodeLossy bytes) = bytes := by
  revert h
  induction bytes using decodeLossy_induct with
  | nil => exact fun _ => rfl
  | character c rest ih =>
    intro h
    rw [encode_cons, ih (List.not_mem_of_not_mem_cons h)]
  | broken => exact fun h => absurd List.mem_cons_self h

theorem encodeChar_subset (hc : c ≠ replacement) (h : c ∈ decodeLossy bytes) :
    encodeChar c ⊆ bytes := by
  revert h
  induction bytes using decodeLossy_induct with
  | nil => exact fun h => absurd h List.not_mem_nil
  | character d rest ih =>
    intro h
    rcases List.mem_cons.mp h with rfl | h
    · exact List.subset_append_left _ _
    · exact List.subset_append_of_subset_right _ (ih h)
  | broken broken rest _ ih =>
    intro h
    exact List.subset_append_of_subset_right _ (ih ((List.mem_cons.mp h).resolve_left hc))

end SceneAudit.Utf8
