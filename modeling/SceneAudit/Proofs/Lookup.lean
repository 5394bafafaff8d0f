import Mathlib.Data.List.Nodup

/-! # Looking up by key

Among elements with distinct keys, a key finds the one element that has it, wherever that stands. In
a list of pairs, leaving out one key changes no other.
-/

namespace SceneAudit.Lookup

section Find

variable {α κ : Type} [DecidableEq κ] {key : α → κ} {l : List α} {a : α} {k : κ}

theorem of_find? (h : l.find? (fun a => key a = k) = some a) : a ∈ l ∧ key a = k := by
  have hkey := List.find?_some h
  exact ⟨List.mem_of_find?_eq_some h, of_decide_eq_true hkey⟩

theorem find?_eq_some_iff (hl : (l.map key).Nodup) :
    l.find? (fun a => key a = k) = some a ↔ a ∈ l ∧ key a = k := by
  refine ⟨of_find?, ?_⟩
  rintro ⟨hmem, rfl⟩
  obtain ⟨b, hb⟩ : ∃ b, l.find? (fun b => key b = key a) = some b := by
    rw [← Option.isSome_iff_exists, List.find?_isSome]
    exact ⟨a, hmem, decide_eq_true rfl⟩
  obtain ⟨hmem', hkey⟩ := of_find? hb
  rw [hb, List.inj_on_of_nodup_map hl hmem' hmem hkey]

end Find

section Pairs

variable {κ β : Type} [BEq κ] [LawfulBEq κ] {l : List (κ × β)} {k : κ} {b : β}

theorem mem_of_lookup (h : l.lookup k = some b) : (k, b) ∈ l := by
  obtain ⟨l₁, l₂, rfl, -⟩ := List.lookup_eq_some_iff.mp h
  exact List.mem_append_right l₁ List.mem_cons_self

theorem lookup_eq_some_iff (hl : (l.map Prod.fst).Nodup) : l.lookup k = some b ↔ (k, b) ∈ l := by
  refine ⟨mem_of_lookup, fun hmem => ?_⟩
  obtain ⟨l₁, l₂, rfl⟩ := List.append_of_mem hmem
  refine List.lookup_eq_some_iff.mpr ⟨l₁, l₂, rfl, ?_⟩
  rintro ⟨k', b'⟩ hp
  rw [List.map_append, List.map_cons, List.nodup_middle, List.nodup_cons, ← List.map_append] at hl
  have hmem' : k' ∈ (l₁ ++ l₂).map Prod.fst :=
    List.mem_map.mpr ⟨(k', b'), List.mem_append_left l₂ hp, rfl⟩
  have hne : k ≠ k' := fun heq => hl.1 (heq ▸ hmem')
  simpa using hne

theorem lookup_filter_of_ne {p : κ × β → Bool} (hp : ∀ b, p (k, b) = true) :
    (l.filter p).lookup k = l.lookup k := by
  induction l with
  | nil => rfl
  | cons e l ih =>
    rcases e with ⟨k', b'⟩
    rw [List.filter_cons]
    by_cases hk : k = k'
    · obtain rfl := hk
      rw [if_pos (hp b'), List.lookup_cons_self, List.lookup_cons_self]
    · have hk' : (k == k') = false := beq_eq_false_iff_ne.mpr hk
      rw [List.lookup_cons, hk', ← ih]
      split
      · rw [List.lookup_cons, hk']
      · rfl

end Pairs

end SceneAudit.Lookup
