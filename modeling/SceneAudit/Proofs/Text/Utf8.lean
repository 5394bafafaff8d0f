import Mathlib.Data.List.Basic
import SceneAudit.Text.Utf8

/-! # Decoding what was encoded

Bytes decode to a text exactly if they are the bytes of that text. A character has one to four
bytes, and for each length the bounds on the first two bytes leave out overlong forms, surrogates
and values that are too large, none of which a character gives rise to. The encoding is the one that
strings are stored in.
-/

namespace SceneAudit.Utf8

variable {a b c d : UInt8} {rest bytes : Bytes} {t : Text}

theorem isTail_iff : isTail a ↔ 0x80 ≤ a.toNat ∧ a.toNat ≤ 0xBF := by
  simp [isTail, UInt8.le_iff_toNat_le]

theorem isSecondOfThree_iff :
    isSecondOfThree a b ↔ isTail b ∧ (a.toNat = 0xE0 → 0xA0 ≤ b.toNat) ∧
      (a.toNat = 0xED → b.toNat ≤ 0x9F) := by
  simp [isSecondOfThree, UInt8.le_iff_toNat_le, ← UInt8.toNat_inj, and_assoc, imp_iff_not_or]

theorem isSecondOfFour_iff :
    isSecondOfFour a b ↔ isTail b ∧ (a.toNat = 0xF0 → 0x90 ≤ b.toNat) ∧
      (a.toNat = 0xF4 → b.toNat ≤ 0x8F) := by
  simp [isSecondOfFour, UInt8.le_iff_toNat_le, ← UInt8.toNat_inj, and_assoc, imp_iff_not_or]

theorem decode?_one (h : a.toNat < 0x80) :
    decode? (a :: rest) = (decode? rest).map (Char.ofNat a.toNat :: ·) := by
  have ha : a < 0x80 := UInt8.lt_iff_toNat_lt.mpr h
  rw [decode?.eq_def]
  simp [ha]

theorem decode?_two (ha : 0xC2 ≤ a.toNat ∧ a.toNat ≤ 0xDF) (hb : isTail b) :
    decode? (a :: b :: rest) =
      (decode? rest).map (Char.ofNat ((a.toNat - 0xC0) * 64 + tailBits b) :: ·) := by
  have hone : ¬a.toNat < 0x80 := by omega
  rw [decode?.eq_def]
  simp [UInt8.le_iff_toNat_le, UInt8.lt_iff_toNat_lt, hone, ha, hb]

theorem decode?_three (ha : 0xE0 ≤ a.toNat ∧ a.toNat ≤ 0xEF) (hb : isSecondOfThree a b)
    (hc : isTail c) :
    decode? (a :: b :: c :: rest) =
      (decode? rest).map
        (Char.ofNat ((a.toNat - 0xE0) * 4096 + tailBits b * 64 + tailBits c) :: ·) := by
  have hone : ¬a.toNat < 0x80 := by omega
  have htwo : ¬a.toNat ≤ 0xDF := by omega
  rw [decode?.eq_def]
  simp [UInt8.le_iff_toNat_le, UInt8.lt_iff_toNat_lt, hone, htwo, ha, hb, hc]

theorem decode?_four (ha : 0xF0 ≤ a.toNat ∧ a.toNat ≤ 0xF4) (hb : isSecondOfFour a b)
    (hc : isTail c) (hd : isTail d) :
    decode? (a :: b :: c :: d :: rest) =
      (decode? rest).map
        (Char.ofNat ((a.toNat - 0xF0) * 262144 + tailBits b * 4096 + tailBits c * 64 +
          tailBits d) :: ·) := by
  have hone : ¬a.toNat < 0x80 := by omega
  have htwo : ¬a.toNat ≤ 0xDF := by omega
  have hthree : ¬a.toNat ≤ 0xEF := by omega
  rw [decode?.eq_def]
  simp [UInt8.le_iff_toNat_le, UInt8.lt_iff_toNat_lt, hone, htwo, hthree, ha, hb, hc, hd]

theorem toNat_ofNat {n : Nat} (h : n < 256) : (UInt8.ofNat n).toNat = n := by
  rw [UInt8.toNat_ofNat', Nat.mod_eq_of_lt h]

theorem toNat_tail (n : Nat) : (UInt8.ofNat (0x80 + n % 64)).toNat = 0x80 + n % 64 :=
  toNat_ofNat (by omega)

theorem isTail_tail (n : Nat) : isTail (.ofNat (0x80 + n % 64)) := by
  rw [isTail_iff, toNat_tail]
  omega

theorem tailBits_tail (n : Nat) : tailBits (.ofNat (0x80 + n % 64)) = n % 64 := by
  unfold tailBits
  rw [toNat_tail, Nat.add_sub_cancel_left]

theorem decode?_encodeChar (c : Char) (rest : Bytes) :
    decode? (encodeChar c ++ rest) = (decode? rest).map (c :: ·) := by
  have hvalid : c.toNat < 0xD800 ∨ 0xDFFF < c.toNat ∧ c.toNat < 0x110000 := c.valid
  have hc : Char.ofNat c.toNat = c := Char.ofNat_toNat c
  unfold encodeChar
  generalize c.toNat = n at hvalid hc
  simp only
  split
  · rename_i hone
    have ha : (UInt8.ofNat n).toNat = n := toNat_ofNat (by omega)
    rw [List.singleton_append, decode?_one (by omega), ha, hc]
  split
  · rename_i hone htwo
    have ha : (UInt8.ofNat (0xC0 + n / 64)).toNat = 0xC0 + n / 64 := toNat_ofNat (by omega)
    have hn : (0xC0 + n / 64 - 0xC0) * 64 + n % 64 = n := by omega
    rw [List.cons_append, List.singleton_append, decode?_two (by omega) (isTail_tail n), ha,
      tailBits_tail, hn, hc]
  split
  · rename_i hone htwo hthree
    have ha : (UInt8.ofNat (0xE0 + n / 4096)).toNat = 0xE0 + n / 4096 := toNat_ofNat (by omega)
    have hsecond : isSecondOfThree (.ofNat (0xE0 + n / 4096)) (.ofNat (0x80 + n / 64 % 64)) := by
      rw [isSecondOfThree_iff, ha, toNat_tail]
      exact ⟨isTail_tail _, by omega, by omega⟩
    have hn : (0xE0 + n / 4096 - 0xE0) * 4096 + n / 64 % 64 * 64 + n % 64 = n := by omega
    rw [List.cons_append, List.cons_append, List.singleton_append,
      decode?_three (by omega) hsecond (isTail_tail n), ha, tailBits_tail, tailBits_tail, hn, hc]
  · rename_i hone htwo hthree
    have ha : (UInt8.ofNat (0xF0 + n / 262144)).toNat = 0xF0 + n / 262144 := toNat_ofNat (by omega)
    have hsecond : isSecondOfFour (.ofNat (0xF0 + n / 262144)) (.ofNat (0x80 + n / 4096 % 64)) := by
      rw [isSecondOfFour_iff, ha, toNat_tail]
      exact ⟨isTail_tail _, by omega, by omega⟩
    have hn : (0xF0 + n / 262144 - 0xF0) * 262144 + n / 4096 % 64 * 4096 + n / 64 % 64 * 64 +
        n % 64 = n := by omega
    rw [List.cons_append, List.cons_append, List.cons_append, List.singleton_append,
      decode?_four (by omega) hsecond (isTail_tail _) (isTail_tail n), ha, tailBits_tail,
      tailBits_tail, tailBits_tail, hn, hc]

theorem encode_cons (c : Char) (t : Text) : encode (c :: t) = encodeChar c ++ encode t :=
  List.flatMap_cons

theorem decode?_encode (t : Text) : decode? (encode t) = some t := by
  induction t with
  | nil => rfl
  | cons c t ih => rw [encode_cons, decode?_encodeChar, ih, Option.map_some]

theorem toNat_char {n : Nat} (h : n < 0xD800 ∨ 0xDFFF < n ∧ n < 0x110000) :
    (Char.ofNat n).toNat = n := by
  have hvalid : n.isValidChar := h
  rw [Char.ofNat, dif_pos hvalid]
  rfl

theorem ofNat_eq {n : Nat} (h : n = a.toNat) : UInt8.ofNat n = a := by
  rw [h, UInt8.ofNat_toNat]

theorem encodeChar_one (h : a.toNat < 0x80) : encodeChar (.ofNat a.toNat) = [a] := by
  have hn : (Char.ofNat a.toNat).toNat = a.toNat := toNat_char (.inl (by omega))
  simp only [encodeChar, hn, h, if_true, UInt8.ofNat_toNat]

theorem encodeChar_two (ha : 0xC2 ≤ a.toNat ∧ a.toNat ≤ 0xDF) (hb : isTail b) :
    encodeChar (.ofNat ((a.toNat - 0xC0) * 64 + tailBits b)) = [a, b] := by
  have hb := isTail_iff.mp hb
  unfold tailBits
  generalize hn : (a.toNat - 0xC0) * 64 + (b.toNat - 0x80) = n
  have hone : ¬ n < 0x80 := by omega
  have htwo : n < 0x800 := by omega
  rw [encodeChar, toNat_char (.inl (by omega))]
  simp only [hone, htwo, if_true, if_false, List.cons.injEq, and_true]
  exact ⟨ofNat_eq (by omega), ofNat_eq (by omega)⟩

theorem encodeChar_three (ha : 0xE0 ≤ a.toNat ∧ a.toNat ≤ 0xEF) (hb : isSecondOfThree a b)
    (hc : isTail c) :
    encodeChar (.ofNat ((a.toNat - 0xE0) * 4096 + tailBits b * 64 + tailBits c)) = [a, b, c] := by
  obtain ⟨hb, hoverlong, hsurrogate⟩ := isSecondOfThree_iff.mp hb
  have hb := isTail_iff.mp hb
  have hc := isTail_iff.mp hc
  unfold tailBits
  generalize hn : (a.toNat - 0xE0) * 4096 + (b.toNat - 0x80) * 64 + (c.toNat - 0x80) = n
  have hone : ¬ n < 0x80 := by omega
  have htwo : ¬ n < 0x800 := by omega
  have hthree : n < 0x10000 := by omega
  rw [encodeChar, toNat_char (by omega)]
  simp only [hone, htwo, hthree, if_true, if_false, List.cons.injEq, and_true]
  exact ⟨ofNat_eq (by omega), ofNat_eq (by omega), ofNat_eq (by omega)⟩

theorem encodeChar_four (ha : 0xF0 ≤ a.toNat ∧ a.toNat ≤ 0xF4) (hb : isSecondOfFour a b)
    (hc : isTail c) (hd : isTail d) :
    encodeChar (.ofNat ((a.toNat - 0xF0) * 262144 + tailBits b * 4096 + tailBits c * 64 +
      tailBits d)) = [a, b, c, d] := by
  obtain ⟨hb, hoverlong, hlarge⟩ := isSecondOfFour_iff.mp hb
  have hb := isTail_iff.mp hb
  have hc := isTail_iff.mp hc
  have hd := isTail_iff.mp hd
  unfold tailBits
  generalize hn : (a.toNat - 0xF0) * 262144 + (b.toNat - 0x80) * 4096 + (c.toNat - 0x80) * 64 +
    (d.toNat - 0x80) = n
  have hone : ¬ n < 0x80 := by omega
  have htwo : ¬ n < 0x800 := by omega
  have hthree : ¬ n < 0x10000 := by omega
  rw [encodeChar, toNat_char (.inr (by omega))]
  simp only [hone, htwo, hthree, if_false, List.cons.injEq, and_true]
  exact ⟨ofNat_eq (by omega), ofNat_eq (by omega), ofNat_eq (by omega), ofNat_eq (by omega)⟩

theorem encode_of_decode? (h : decode? bytes = some t) : encode t = bytes := by
  fun_induction decode? bytes generalizing t with
  | case1 =>
    obtain rfl := Option.some.inj h
    rfl
  | case2 a rest ha ih =>
    obtain ⟨t, ht, rfl⟩ := Option.map_eq_some_iff.mp h
    rw [encode_cons, encodeChar_one (UInt8.lt_iff_toNat_lt.mp ha), ih ht, List.singleton_append]
  | case4 a hone b rest ha hb ih =>
    obtain ⟨t, ht, rfl⟩ := Option.map_eq_some_iff.mp h
    simp only [Bool.and_eq_true, decide_eq_true_eq, UInt8.le_iff_toNat_le] at ha
    rw [encode_cons, encodeChar_two ha hb, ih ht]
    rfl
  | case7 a hone b htwo c rest ha hbc ih =>
    obtain ⟨t, ht, rfl⟩ := Option.map_eq_some_iff.mp h
    simp only [Bool.and_eq_true, decide_eq_true_eq, UInt8.le_iff_toNat_le] at ha hbc
    rw [encode_cons, encodeChar_three ha hbc.1 hbc.2, ih ht]
    rfl
  | case10 a hone b htwo c hthree d rest hall ih =>
    obtain ⟨t, ht, rfl⟩ := Option.map_eq_some_iff.mp h
    simp only [Bool.and_eq_true, decide_eq_true_eq, UInt8.le_iff_toNat_le] at hall
    obtain ⟨⟨⟨ha, hb⟩, hc⟩, hd⟩ := hall
    rw [encode_cons, encodeChar_four ha hb hc hd, ih ht]
    rfl
  | case3 | case5 | case6 | case8 | case9 | case11 => exact nomatch h

theorem decode?_eq_some_iff : decode? bytes = some t ↔ bytes = encode t := by
  constructor
  · exact fun h => (encode_of_decode? h).symm
  · rintro rfl
    exact decode?_encode t

theorem encodeChar_eq_utf8EncodeChar (c : Char) : encodeChar c = String.utf8EncodeChar c := by
  have hvalid : c.toNat < 0xD800 ∨ 0xDFFF < c.toNat ∧ c.toNat < 0x110000 := c.valid
  have hval : c.val.toNat = c.toNat := rfl
  simp only [encodeChar, String.utf8EncodeChar, hval, ← Nat.lt_succ_iff]
  split_ifs with hone htwo hthree
  · rfl
  · simp only [Nat.mod_eq_of_lt (by omega : c.toNat / 64 < 32), Nat.add_comm]
  · simp only [Nat.mod_eq_of_lt (by omega : c.toNat / 4096 < 16), Nat.add_comm]
  · simp only [Nat.mod_eq_of_lt (by omega : c.toNat / 262144 < 8), Nat.add_comm]

theorem encode_toList (s : String) : encode s.toList = s.toByteArray.data.toList := by
  rw [← String.utf8Encode_toList, List.utf8Encode, List.data_toByteArray, encode,
    funext encodeChar_eq_utf8EncodeChar]

end SceneAudit.Utf8
