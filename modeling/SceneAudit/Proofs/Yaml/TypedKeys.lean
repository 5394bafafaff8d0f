import SceneAudit.Proofs.Yaml.Meaning
import SceneAudit.Proofs.Yaml.Scalars

/-! # Keys as they are typed

A plain key goes by the rules for scalars: a word for nothing or for a truth value and a number are
no strings. Entries one below the other are read with such keys as well, unless a key or a value is
refused or two keys are the same scalar. The keys that are strings keep their text and their order.
-/

namespace SceneAudit.Yaml

open Node Value

def IsTyped (e : Text × Option Value) (p : Value × Value) : Prop :=
  ∃ s v, Scalar.ofPlain? e.1 = some s ∧ e.2 = some v ∧ p = (.scalar s, v)

/-- No key and no value of the entries is refused, and no two keys are the same scalar. -/
structure IsAccepted (entries : List (Text × Option Value)) : Prop where
  keys : ∀ e ∈ entries, Scalar.ofPlain? e.1 ≠ none
  values : ∀ e ∈ entries, e.2 ≠ none
  distinct : (entries.map fun e => Scalar.ofPlain? e.1).Nodup

instance (entries : List (Text × Option Value)) : Decidable (IsAccepted entries) :=
  decidable_of_iff ((∀ e ∈ entries, Scalar.ofPlain? e.1 ≠ none) ∧
    (∀ e ∈ entries, e.2.isSome = true) ∧ (entries.map fun e => Scalar.ofPlain? e.1).Nodup)
    ⟨fun h => ⟨h.1, fun e he => Option.isSome_iff_ne_none.mp (h.2.1 e he), h.2.2⟩,
      fun h => ⟨h.1, fun e he => Option.isSome_iff_ne_none.mpr (h.2 e he), h.3⟩⟩

section Denotes

variable {d : Nat} {nodes : List (Written × Written)} {entries : List (Text × Option Value)}

theorem denotes_typedMapping (h : DenotesTyped d nodes entries) :
    Denotes (d + 1) (.mapping noProperties nodes) ((typedEntries? [] entries).map .mapping) := by
  obtain ⟨linked, hlink, hread⟩ := h
  exact denotes_mapping_of_read hlink fun doc depth budget => hread doc depth budget []

end Denotes

section Stands

variable {d k : Nat} {entries : List Entry} (hkeys : ∀ e ∈ entries, IsKey e.key)
  (hstands : ∀ e ∈ entries, Stands k d e.text e.value)

include hkeys hstands

theorem stands_typed {k' : Nat} (hk : k' < k) (hne : entries ≠ []) :
    Stands k' (d + 1) ('\n' :: entries.flatMap (Entry.written k))
      ((typedEntries? [] (entries.map Entry.pair)).map .mapping) := by
  obtain ⟨tokens, nodes, hcuts, hforms, hdenotes⟩ := exists_typedNodes hkeys hstands
  exact ⟨_, _, cuts_nested hk hcuts (written_ne_nil hne), forms_nested hforms,
    denotes_typedMapping hdenotes⟩

end Stands

section Accepted

variable {entries : List (Text × Option Value)} {seen es : List (Value × Value)}

theorem typedEntries?_eq_some_iff : typedEntries? seen entries = some es ↔
    ∃ new, es = seen.reverse ++ new ∧ List.Forall₂ IsTyped entries new ∧ Distinct new ∧
      ∀ p ∈ new, hasKey p.1 seen = false := by
  induction entries generalizing seen with
  | nil =>
    constructor
    · rintro ⟨⟩
      exact ⟨[], (List.append_nil _).symm, .nil, .nil, List.forall_mem_nil _⟩
    · rintro ⟨_, rfl, ⟨⟩, -, -⟩
      rw [typedEntries?, List.append_nil]
  | cons e entries ih =>
    obtain ⟨key, value⟩ := e
    constructor
    · intro h
      unfold typedEntries? at h
      split at h
      · simp at h
      · rename_i s hkey
        split at h
        · simp at h
        · rename_i hnew
          split at h
          · simp at h
          · rename_i v
            obtain ⟨new, rfl, htyped, hdistinct, hseen⟩ := ih.mp h
            simp only [hasKey, List.any_cons, Bool.or_eq_false_iff] at hseen
            refine ⟨(.scalar s, v) :: new, by simp, .cons ⟨s, v, hkey, rfl, rfl⟩ htyped,
              List.pairwise_cons.mpr ⟨fun p hp => (hseen p hp).1, hdistinct⟩, ?_⟩
            refine List.forall_mem_cons.mpr ⟨Bool.of_not_eq_true hnew, fun p hp => ?_⟩
            exact (hseen p hp).2
    · rintro ⟨all, rfl, htyped, hdistinct, hseen⟩
      obtain ⟨s, v, new, hkey, hvalue, rfl, hrest⟩ : ∃ s v new, Scalar.ofPlain? key = some s ∧
          value = some v ∧ all = (.scalar s, v) :: new ∧ List.Forall₂ IsTyped entries new := by
        cases htyped with
        | cons hfirst htyped =>
          obtain ⟨s, v, hkey, hvalue, rfl⟩ := hfirst
          exact ⟨s, v, _, hkey, hvalue, rfl, htyped⟩
      obtain ⟨hfirst, hseen⟩ := List.forall_mem_cons.mp hseen
      obtain ⟨hne, hdistinct⟩ := List.pairwise_cons.mp hdistinct
      rw [typedEntries?, hkey, hvalue]
      dsimp only
      rw [hfirst, if_neg Bool.false_ne_true]
      refine ih.mpr ⟨new, by simp, hrest, hdistinct, fun p hp => ?_⟩
      rw [hasKey, List.any_cons, Bool.or_eq_false_iff]
      exact ⟨hne p hp, hseen p hp⟩

variable {new : List (Value × Value)}

theorem forall_not_same_iff (h : List.Forall₂ IsTyped entries new) (s : Scalar) :
    (∀ p ∈ new, same (.scalar s) p.1 = false) ↔
      some s ∉ entries.map fun e => Scalar.ofPlain? e.1 := by
  induction h with
  | nil => simp
  | @cons e p entries new hfirst _ ih =>
    obtain ⟨s', v, hkey, -, rfl⟩ := hfirst
    rw [List.forall_mem_cons, ih, List.map_cons, List.mem_cons, not_or, hkey]
    simp [same]

theorem exists_typed_iff :
    (∃ new, List.Forall₂ IsTyped entries new ∧ Distinct new) ↔ IsAccepted entries := by
  induction entries with
  | nil =>
    refine iff_of_true ⟨[], .nil, .nil⟩ ⟨?_, ?_, .nil⟩ <;> exact List.forall_mem_nil _
  | cons e entries ih =>
    constructor
    · rintro ⟨new, htyped, hdistinct⟩
      cases htyped with
      | cons hfirst htyped =>
        obtain ⟨s, v, hkey, hvalue, rfl⟩ := hfirst
        obtain ⟨hne, hdistinct⟩ := List.pairwise_cons.mp hdistinct
        obtain ⟨hkeys, hvalues, hnodup⟩ := ih.mp ⟨_, htyped, hdistinct⟩
        refine ⟨List.forall_mem_cons.mpr ⟨by simp [hkey], hkeys⟩,
          List.forall_mem_cons.mpr ⟨by simp [hvalue], hvalues⟩, ?_⟩
        rw [List.map_cons, List.nodup_cons, hkey]
        exact ⟨(forall_not_same_iff htyped s).mp hne, hnodup⟩
    · rintro ⟨hkeys, hvalues, hnodup⟩
      obtain ⟨hkey, hkeys⟩ := List.forall_mem_cons.mp hkeys
      obtain ⟨hvalue, hvalues⟩ := List.forall_mem_cons.mp hvalues
      obtain ⟨hnew, hnodup⟩ := List.nodup_cons.mp hnodup
      obtain ⟨s, hs⟩ := Option.ne_none_iff_exists'.mp hkey
      obtain ⟨v, hv⟩ := Option.ne_none_iff_exists'.mp hvalue
      obtain ⟨new, htyped, hdistinct⟩ := ih.mpr ⟨hkeys, hvalues, hnodup⟩
      simp only [hs] at hnew
      exact ⟨(.scalar s, v) :: new, .cons ⟨s, v, hs, hv, rfl⟩ htyped,
        List.pairwise_cons.mpr ⟨(forall_not_same_iff htyped s).mpr hnew, hdistinct⟩⟩

/-- Accepted entries come to the mapping of their scalars and values, others to nothing. -/
theorem typedEntries?_nil_eq_some_iff : typedEntries? [] entries = some es ↔
    List.Forall₂ IsTyped entries es ∧ Distinct es := by
  rw [typedEntries?_eq_some_iff]
  constructor
  · rintro ⟨new, rfl, htyped, hdistinct, -⟩
    exact ⟨htyped, hdistinct⟩
  · rintro ⟨htyped, hdistinct⟩
    exact ⟨es, rfl, htyped, hdistinct, fun _ _ => rfl⟩

theorem typedEntries?_eq_none_iff : typedEntries? [] entries = none ↔ ¬ IsAccepted entries := by
  rw [← exists_typed_iff, Option.eq_none_iff_forall_ne_some]
  simp only [ne_eq, typedEntries?_nil_eq_some_iff, not_exists]

theorem filterMap_asString? (h : List.Forall₂ IsTyped entries es) :
    (es.filterMap fun p => p.1.asString?) =
      (entries.map Prod.fst).filter fun key => IsName key := by
  induction h with
  | nil => rfl
  | @cons e p entries es hfirst _ ih =>
    obtain ⟨s, v, hkey, -, rfl⟩ := hfirst
    rw [List.map_cons, List.filter_cons, List.filterMap_cons, ih]
    cases s with
    | string t =>
      obtain rfl := Scalar.eq_of_ofPlain?_string hkey
      rw [if_pos (decide_eq_true (show IsName e.1 from hkey))]
      rfl
    | null | bool | integer | float =>
      rw [if_neg (by simp [IsName, hkey])]
      rfl

end Accepted

end SceneAudit.Yaml
