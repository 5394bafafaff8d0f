import SceneAudit.Proofs.Yaml.Openings
import SceneAudit.Toml.Statement

/-! # Statements cut into document tokens

The first statement of a text stands behind white space and comments that end with their lines. Cut
into the tokens of a document, a statement begins with one that says something: the bracket of a
header, a quoted key, or a plain word. A key of three dashes may pass for a document marker, but a
sign that says something follows it on its line.
-/

namespace SceneAudit.Toml

open Yaml (Margin Speaks Opens Pending isMargin margin_feed margin_gaps)

section Keys

variable {c : Char} {t rest : Text}

theorem isSolid_of_isBareKeyChar (hc : isBareKeyChar c = true) :
    Yaml.Scanner.isSolid c = true ∧ c ≠ '%' ∧ c ≠ '&' ∧ c ≠ '!' ∧ c ≠ '.' := by
  have hne : ∀ d, isBareKeyChar d = false → c ≠ d := by
    rintro d hd rfl
    rw [hc] at hd
    contradiction
  have hrange : 45 ≤ c.toNat ∧ c.toNat ≤ 122 := by
    simp only [isBareKeyChar, Bool.or_eq_true, Bool.and_eq_true, decide_eq_true_eq, beq_iff_eq]
      at hc
    rcases hc with (((hc | hc) | hc) | rfl) | rfl
    · omega
    · omega
    · omega
    · decide
    · decide
  refine ⟨Yaml.Scanner.isSolid_iff.mpr ⟨?_, hne '#' rfl, by omega⟩, hne '%' rfl, hne '&' rfl,
    hne '!' rfl, hne '.' rfl⟩
  simp only [Text.isBlank, Bool.or_eq_false_iff, Bool.and_eq_false_iff, decide_eq_false_iff_not,
    beq_eq_false_iff_ne]
  omega

theorem speaks_of_sign (hc : c = '[' ∨ c = '"' ∨ c = '\'' ∨ c = '=') (t : Text) :
    Speaks (c :: t) := by
  have hmarker : ∀ m, (m = '-' ∨ m = '.') → Yaml.atMarker m (c :: t) = false := by
    intro m hm
    refine Yaml.atMarker_of_ne ?_ t
    rintro rfl
    rcases hc with rfl | rfl | rfl | rfl <;> revert hm <;> decide
  refine ⟨?_, hmarker⟩
  rcases hc with rfl | rfl | rfl | rfl <;> rfl

theorem speaks_of_isBareKeyChar (hc : isBareKeyChar c = true)
    (hdash : Yaml.atMarker '-' (c :: t) = false) : Speaks (c :: t) := by
  obtain ⟨hsolid, hpercent, hand, hbang, hdot⟩ := isSolid_of_isBareKeyChar hc
  refine ⟨by simp [Yaml.nextIs, hsolid, hpercent, hand, hbang], ?_⟩
  rintro m (rfl | rfl)
  · exact hdash
  · exact Yaml.atMarker_of_ne hdot t

theorem not_isBareKeyChar_of_atWordEnd (h : Yaml.atWordEnd t = true) (hc : t.head? = some c) :
    isBareKeyChar c = false := by
  by_contra hbare
  obtain ⟨hbreak, hgap, -⟩ := Yaml.Scanner.not_space_of_isSolid
    (isSolid_of_isBareKeyChar (Bool.of_not_eq_false hbare)).1
  cases t with
  | nil => contradiction
  | cons d t =>
    obtain rfl := Option.some.inj hc
    rw [Yaml.atWordEnd, hbreak, hgap] at h
    contradiction

theorem skipGaps_of_not_isGap (hc : isGap c = false) : skipGaps (c :: t) = c :: t :=
  List.dropWhile_cons_of_neg (by simp [hc])

theorem exists_head_of_simpleKey {key : Text} (h : simpleKey? t = some (key, rest)) :
    ∃ c r, t = c :: r ∧ (c = '"' ∨ c = '\'' ∨
      (isBareKeyChar c = true ∧ rest = t.dropWhile isBareKeyChar)) := by
  cases t with
  | nil => simp [simpleKey?] at h
  | cons c r =>
    refine ⟨c, r, rfl, ?_⟩
    unfold simpleKey? at h
    split at h
    · rename_i hquote
      rcases hquote with hquote | hquote
      · exact .inl (Option.some.inj hquote)
      · exact .inr (.inl (Option.some.inj hquote))
    · split at h
      · contradiction
      · rename_i hne
        obtain ⟨-, rfl⟩ := Prod.mk.inj (Option.some.inj h)
        refine .inr (.inr ⟨?_, rfl⟩)
        by_contra hc
        exact hne (List.takeWhile_cons_of_neg hc)

theorem keyParts_cases {fuel : Nat} {keys : List Text}
    (h : keyParts? fuel t = some (keys, rest)) :
    ∃ key behind, simpleKey? (skipGaps t) = some (key, behind) ∧
      (skipGaps behind = rest ∨ ∃ fuel keys r, skipGaps behind = '.' :: r ∧
        keyParts? fuel r = some (keys, rest)) := by
  cases fuel with
  | zero => contradiction
  | succ fuel =>
    unfold keyParts? at h
    split at h
    · contradiction
    · rename_i key behind hkey
      refine ⟨key, behind, hkey, ?_⟩
      split at h
      · rename_i r hdot
        obtain ⟨⟨keys', rest'⟩, hmore, hpair⟩ := Option.map_eq_some_iff.mp h
        obtain ⟨-, rfl⟩ := Prod.mk.inj hpair
        exact .inr ⟨fuel, keys', r, hdot, hmore⟩
      · exact .inl (Prod.mk.inj (Option.some.inj h)).2

theorem speaks_of_dot {fuel : Nat} {keys : List Text} (h : keyParts? fuel t = some (keys, rest)) :
    Speaks ('.' :: t) := by
  refine ⟨rfl, ?_⟩
  rintro m (rfl | rfl)
  · exact Yaml.atMarker_of_ne (by decide) t
  · by_contra hmarker
    obtain ⟨r, hdots, -⟩ := Yaml.Scanner.exists_of_atMarker (Bool.of_not_eq_false hmarker)
    obtain rfl := (List.cons.inj hdots).2
    obtain ⟨key, behind, hkey, -⟩ := keyParts_cases h
    rw [skipGaps_of_not_isGap rfl] at hkey
    obtain ⟨c, r', hcut, hc⟩ := exists_head_of_simpleKey hkey
    obtain ⟨rfl, -⟩ := List.cons.inj hcut
    revert hc
    simp [isBareKeyChar]

theorem opens_of_keyParts {fuel : Nat} {keys : List Text} (hc : isGap c = false)
    (h : keyParts? fuel (c :: t) = some (keys, '=' :: rest)) : Opens (c :: t) := by
  obtain ⟨key, behind, hkey, hbehind⟩ := keyParts_cases h
  rw [skipGaps_of_not_isGap hc] at hkey
  obtain ⟨d, r, hcut, hd⟩ := exists_head_of_simpleKey hkey
  obtain ⟨rfl, rfl⟩ := List.cons.inj hcut
  rcases hd with hquote | hquote | ⟨hbare, hdrop⟩
  · exact .inl (speaks_of_sign (.inr (.inl hquote)) t)
  · exact .inl (speaks_of_sign (.inr (.inr (.inl hquote))) t)
  · by_cases hdash : Yaml.atMarker '-' (c :: t) = true
    · obtain ⟨r, hdashes, hend⟩ := Yaml.Scanner.exists_of_atMarker hdash
      rw [hdashes] at hdrop ⊢
      have hbehind' : behind = r := by
        rw [hdrop]
        exact Text.dropWhile_run (s := ['-', '-', '-']) (by decide)
          fun c hc => not_isBareKeyChar_of_atWordEnd hend hc
      subst hbehind'
      refine .inr ⟨behind.takeWhile isGap, skipGaps behind, ?_, ?_, ?_⟩
      · rw [skipGaps, List.takeWhile_append_dropWhile]
      · exact fun c => List.mem_takeWhile_imp
      · obtain hequals | ⟨fuel, keys, r, hdot, hmore⟩ := hbehind
        · rw [hequals]
          exact speaks_of_sign (.inr (.inr (.inr rfl))) rest
        · rw [hdot]
          exact speaks_of_dot hmore
    · exact .inl (speaks_of_isBareKeyChar hbare ((Bool.not_eq_true _).mp hdash))

end Keys

section Lines

variable {t rest : Text}

theorem lineEnd_cases (h : lineEnd? t = some rest) : rest = [] ∨ ∃ p, t = p ++ '\n' :: rest := by
  have hsuffix : skipComment (skipGaps t) <:+ t := by
    refine List.IsSuffix.trans ?_ (List.dropWhile_suffix isGap)
    unfold skipComment
    split
    · exact List.dropWhile_suffix isPrintable
    · exact List.suffix_refl _
  obtain ⟨p, hp⟩ := hsuffix
  unfold lineEnd? at h
  split at h
  · exact .inl (Option.some.inj h).symm
  · unfold newline? at h
    split at h
    · rename_i hcut
      obtain rfl := Option.some.inj h
      exact .inr ⟨p, by rw [← hcut, hp]⟩
    · rename_i hcut
      obtain rfl := Option.some.inj h
      refine .inr ⟨p ++ ['\r'], ?_⟩
      rw [List.append_assoc, List.singleton_append, ← hcut, hp]
    · contradiction

theorem pending_feed (h : Pending rest) (p : Text) : Pending (p ++ '\n' :: rest) := by
  obtain ⟨w, u, rfl, hw, hu⟩ := h
  refine ⟨p ++ '\n' :: w, u, ?_, margin_feed p hw, hu⟩
  rw [List.append_assoc, List.cons_append]

theorem pending_skipGaps (h : Pending (skipGaps t)) : Pending t := by
  obtain ⟨w, u, hcut, hw, hu⟩ := h
  refine ⟨t.takeWhile isGap ++ w, u, ?_,
    margin_gaps (fun c => List.mem_takeWhile_imp) hw, hu⟩
  rw [List.append_assoc, ← hcut, skipGaps, List.takeWhile_append_dropWhile]

theorem opens_of_key {c : Char} {path : List Text} {key : Text} (hc : isGap c = false)
    (h : key? (c :: t) = some (path, key, '=' :: rest)) : Opens (c :: t) := by
  unfold key? at h
  split at h
  · contradiction
  · rename_i keys behind hkeys
    obtain ⟨last, -, hpair⟩ := Option.map_eq_some_iff.mp h
    obtain ⟨-, hpair⟩ := Prod.mk.inj hpair
    obtain ⟨-, rfl⟩ := Prod.mk.inj hpair
    exact opens_of_keyParts hc hkeys

theorem opens_of_statement {c : Char} {s : Statement} (hc : isGap c = false)
    (h : statement? (c :: t) = some (s, rest)) : Opens (c :: t) := by
  unfold statement? at h
  split at h
  · rename_i hcut
    rw [hcut]
    exact .inl (speaks_of_sign (.inl rfl) _)
  · rename_i hcut
    rw [hcut]
    exact .inl (speaks_of_sign (.inl rfl) _)
  · split at h
    · rename_i hkey
      exact opens_of_key hc hkey
    · contradiction

theorem pending_of_statements {fuel : Nat} {statements : List Statement}
    (h : statements? fuel t = some statements) : statements = [] ∨ Pending t := by
  induction fuel generalizing t statements with
  | zero => contradiction
  | succ fuel ih =>
    unfold statements? at h
    split at h
    · exact .inl (Option.some.inj h).symm
    · rename_i c r hgaps
      have hc : isGap c = false := by
        have hhead := List.head?_dropWhile_not isGap t
        rw [show t.dropWhile isGap = c :: r from hgaps] at hhead
        simpa using hhead
      split at h
      · split at h
        · contradiction
        · rename_i rest hline
          obtain hnone | hpending := ih h
          · exact .inl hnone
          · refine .inr (pending_skipGaps ?_)
            rw [hgaps]
            obtain rfl | ⟨p, hp⟩ := lineEnd_cases hline
            · obtain ⟨w, u, hcut, -, hu⟩ := hpending
              obtain ⟨d, v, rfl, -⟩ := hu.exists_head
              simp at hcut
            · rw [hp]
              exact pending_feed hpending p
      · split at h
        · contradiction
        · rename_i s rest hstatement
          refine .inr (pending_skipGaps ?_)
          rw [hgaps]
          exact ⟨[], c :: r, rfl, trivial, opens_of_statement hc hstatement⟩

end Lines

/-- A text has no statement, or one begins a line of it. -/
theorem pending_of_ofText {t : Text} {statements : List Statement}
    (h : Statement.ofText? t = some statements) : statements = [] ∨ Pending t := by
  unfold Statement.ofText? at h
  refine (pending_of_statements h).imp_right fun hpending => ?_
  cases hmark : Text.dropStart? [Char.ofNat 0xFEFF] t with
  | none =>
    rw [hmark] at hpending
    exact hpending
  | some u =>
    rw [hmark] at hpending
    obtain ⟨w, v, rfl, hw, hv⟩ := hpending
    rw [Text.dropStart?_eq_some_iff.mp hmark]
    exact ⟨Char.ofNat 0xFEFF :: w, v, rfl, ⟨.inl (by decide), hw⟩, hv⟩

end SceneAudit.Toml
