import SceneAudit.Proofs.Hierarchy.Arena
import SceneAudit.Proofs.Scene.Entities

/-! # Anchors and references to them

Headers and references spell anchors on their own, with or without signs, zeros and quotes. Both
come down to the decimal of the integer, so that a reference means a block exactly when the two
spell the same integer, and every spelling of zero means none.
-/

namespace SceneAudit

open Scene
open Text (Spells ofInt fitsSigned)
open Yaml (Value)

namespace Scene

theorem RawBlock.anchor_ofHeader {s : Text} {n : Int} (hs : Spells s n)
    (hn : fitsSigned 64 n = true) {header : Text} {before after : List Text}
    (hwords : Text.words header = before ++ ('&' :: s) :: after)
    (hafter : ∀ w ∈ after, anchorOf? w = none) (body : Text) :
    (ofHeader header body).anchor = some (ofInt n) := by
  obtain ⟨c, t, rfl⟩ := List.exists_cons_of_ne_nil hs.ne_nil
  have hanchor : anchorOf? ('&' :: c :: t) = some (ofInt n) :=
    congrArg some (canonicalAnchor_of_spells hs hn)
  have hnil : after.filterMap anchorOf? = [] := List.filterMap_eq_nil_iff.mpr hafter
  simp [ofHeader, hwords, hanchor, hnil]

/-- The value of a reference: a mapping whose `fileID` is an integer or a string of one. -/
def IsReference (v : Value) : Prop :=
  ∃ entries id, v = .mapping entries ∧ Value.lookup "fileID".toList entries = some id ∧
    ((∃ n, id = .scalar (.integer n)) ∨
      ∃ t n, id = .scalar (.string t) ∧ Text.readInt64? (Text.trim t) = some n)

theorem exists_of_anchorOfId? {id : Value} {anchor : Text} (h : anchorOfId? id = some anchor) :
    (∃ n, id = .scalar (.integer n)) ∨
      ∃ t n, id = .scalar (.string t) ∧ Text.readInt64? (Text.trim t) = some n := by
  fun_cases anchorOfId? id with
  | case1 n => exact Or.inl ⟨n, rfl⟩
  | case2 t =>
    obtain ⟨n, hn, -⟩ := Option.map_eq_some_iff.mp h
    exact Or.inr ⟨t, n, rfl, hn⟩
  | case3 => cases id <;> simp_all [anchorOfId?]

theorem referencedAnchor_of_not_isReference {v : Value} (htag : ∀ tag w, v ≠ .tagged tag w)
    (h : ¬IsReference v) : referencedAnchor (some v) = noAnchor := by
  cases v with
  | mapping entries =>
    have hget : Value.get? "fileID".toList (.mapping entries) =
        Value.lookup "fileID".toList entries := rfl
    rw [referencedAnchor, Option.bind_some, hget]
    cases hid : Value.lookup "fileID".toList entries with
    | none => rfl
    | some id =>
      cases hanchor : anchorOfId? id with
      | none => rw [Option.bind_some, hanchor, Option.getD_none]
      | some anchor =>
        exact absurd ⟨entries, id, rfl, hid, exists_of_anchorOfId? hanchor⟩ h
  | tagged tag w => exact absurd rfl (htag tag w)
  | scalar s => rfl
  | sequence items => rfl

namespace Layout

/-- A block of a transform: the header spells the anchor `n`, and the references to the owner and
the parent spell `owner` and `parent`. -/
structure IsTransform (l : Layout) (n owner parent : Int) : Prop where
  verbatim : l.IsVerbatim
  kind : BlockKind.ofName l.name = .transform
  anchor : Spells l.anchor n
  fits : fitsSigned 64 n = true ∧ fitsSigned 64 owner = true ∧ fitsSigned 64 parent = true
  owned : ∃ c, ("m_GameObject".toList, c) ∈ l.properties ∧ Refers owner c
  placed : ∃ c, ("m_Father".toList, c) ∈ l.properties ∧ Refers parent c
  readable : l.properties? ≠ none

/-- A block of an object whose header spells the anchor `n`. -/
structure IsObject (l : Layout) (n : Int) : Prop where
  verbatim : l.IsVerbatim
  kind : BlockKind.ofName l.name = .object
  anchor : Spells l.anchor n
  fits : fitsSigned 64 n = true
  readable : l.properties? ≠ none

variable {l : Layout} {reserved : List Text} {blocks : List Text}
  (hblocks : ∀ b ∈ blocks, IsBlock b) (hl : l.text ∈ blocks)

include hblocks hl

theorem mem_entities (h : l.IsVerbatim) {b : Block} {e : Entity}
    (hread : l.reading reserved = .block b (some e)) :
    e ∈ (parse reserved blocks.flatten).entities := by
  have hmem : l.reading reserved ∈
      (blocks.flatMap RawBlock.split).map (Reading.ofRaw reserved) := by
    rw [List.map_flatMap]
    refine List.mem_flatMap.mpr ⟨l.text, hl, ?_⟩
    rw [readings_text h]
    exact List.mem_singleton_self _
  rw [parse_flatten reserved hblocks]
  exact List.mem_filterMap.mpr ⟨_, hmem, by rw [hread]; rfl⟩

theorem IsTransform.mem_transforms {n owner parent : Int} (h : l.IsTransform n owner parent) :
    (⟨ofInt n, ofInt owner, ofInt parent⟩ : Transform) ∈
      (parse reserved blocks.flatten).transforms := by
  obtain ⟨ps, hps⟩ := Option.ne_none_iff_exists'.mp h.readable
  obtain ⟨hn, howner, hparent⟩ := h.fits
  obtain ⟨c, hc, hcref⟩ := h.owned
  obtain ⟨d, hd, hdref⟩ := h.placed
  have hread : l.reading reserved = .block (l.block ps)
      (some (.transform ⟨ofInt n, ofInt owner, ofInt parent⟩)) := by
    rw [reading, hps]
    simp only [ofBlock?_transform h.anchor hn h.kind, reference_eq h.verbatim hps hc hcref howner,
      reference_eq h.verbatim hps hd hdref hparent]
  exact List.mem_filterMap.mpr ⟨_, mem_entities hblocks hl h.verbatim hread, rfl⟩

theorem IsObject.exists_mem_objects {n : Int} (h : l.IsObject n) :
    ∃ o ∈ (parse reserved blocks.flatten).objects, o.anchor = ofInt n := by
  obtain ⟨ps, hps⟩ := Option.ne_none_iff_exists'.mp h.readable
  have hread : l.reading reserved = .block (l.block ps)
      (some (.object ⟨ofInt n, Entity.objectName (l.block ps) l.body⟩)) := by
    rw [reading, hps]
    simp only [ofBlock?_object h.anchor h.fits h.kind]
  exact ⟨_, List.mem_filterMap.mpr ⟨_, mem_entities hblocks hl h.verbatim hread, rfl⟩, rfl⟩

end Layout

end Scene

namespace Arena

variable {arena : Arena} {i j : Nat} {t u : Transform} {n m : Int}

theorem ofInt_eq_noAnchor_iff : ofInt n = noAnchor ↔ n = 0 :=
  ⟨fun h => Text.ofInt_injective (h.trans (by decide : noAnchor = ofInt 0)), fun h => h ▸ by decide⟩

theorem mem_children_iff (hi : arena.transforms[i]? = some t) (hj : arena.transforms[j]? = some u)
    (ht : t.anchor = ofInt n) (hu : u.parent = ofInt m) (hn : n ≠ 0) :
    j ∈ arena.children i ↔ n = m := by
  rw [mem_children]
  constructor
  · rintro ⟨t', u', hi', hj', -, heq⟩
    obtain rfl := Option.some.inj (hi.symm.trans hi')
    obtain rfl := Option.some.inj (hj.symm.trans hj')
    rw [ht, hu] at heq
    exact (Text.ofInt_injective heq).symm
  · rintro rfl
    exact ⟨t, u, hi, hj, by rwa [hu, Ne, ofInt_eq_noAnchor_iff], hu.trans ht.symm⟩

theorem mem_roots_iff (hj : arena.transforms[j]? = some u) (hu : u.parent = ofInt m) :
    j ∈ arena.roots ↔ m = 0 := by
  rw [mem_roots]
  constructor
  · rintro ⟨u', hj', heq⟩
    obtain rfl := Option.some.inj (hj.symm.trans hj')
    rw [hu] at heq
    exact ofInt_eq_noAnchor_iff.mp heq
  · rintro rfl
    exact ⟨u, hj, hu.trans (by decide)⟩

theorem find?_owner_iff (hnodup : (arena.objects.map Object.anchor).Nodup) {o : Object}
    (ho : o ∈ arena.objects) (hanchor : o.anchor = ofInt n) (howner : t.owner = ofInt m) :
    arena.objects.reverse.find? (fun o => o.anchor = t.owner) = some o ↔ n = m := by
  have hnodup' : (arena.objects.reverse.map Object.anchor).Nodup := by
    rw [List.map_reverse]
    exact List.nodup_reverse.mpr hnodup
  rw [Lookup.find?_eq_some_iff hnodup', hanchor, howner, List.mem_reverse]
  exact ⟨fun h => Text.ofInt_injective h.2, fun h => ⟨ho, h ▸ rfl⟩⟩

end Arena

/-- Headers and references agree on every spelling of an anchor. -/
theorem anchors_meet_references (reserved : List Text) :
    (∀ (s : Text) (n : Int), Spells s n → fitsSigned 64 n = true →
      ∀ (header body : Text) (before after : List Text),
        Text.words header = before ++ ('&' :: s) :: after →
        (∀ w ∈ after, RawBlock.anchorOf? w = none) →
        (RawBlock.ofHeader header body).anchor = some (ofInt n)) ∧
    (∀ (l : Layout) (key : String) (c : Content) (m : Int), l.IsVerbatim →
      (key.toList, c) ∈ l.properties → Refers m c → fitsSigned 64 m = true →
      l.properties? ≠ none → ∃ block entity,
        (RawBlock.split l.text).map (Reading.ofRaw reserved) = [.block block entity] ∧
        referencedAnchor (Value.lookup key.toList block.properties) = ofInt m) ∧
    (∀ blocks : List Text, (∀ b ∈ blocks, IsBlock b) →
      let arena := Arena.ofScene (parse reserved blocks.flatten)
      ∀ (child : Layout) (m owner parent : Int), child.IsTransform m owner parent →
        child.text ∈ blocks →
        let u : Transform := ⟨ofInt m, ofInt owner, ofInt parent⟩
        u ∈ arena.transforms ∧
        (∀ j, arena.transforms[j]? = some u → (j ∈ arena.roots ↔ parent = 0)) ∧
        (∀ (above : Layout) (n o p : Int), above.IsTransform n o p → above.text ∈ blocks → n ≠ 0 →
          let t : Transform := ⟨ofInt n, ofInt o, ofInt p⟩
          t ∈ arena.transforms ∧ ∀ i j, arena.transforms[i]? = some t →
            arena.transforms[j]? = some u → (j ∈ arena.children i ↔ n = parent)) ∧
        (∀ (object : Layout) (n : Int), object.IsObject n → object.text ∈ blocks →
          ∃ o ∈ arena.objects, (o.anchor = u.owner ↔ n = owner) ∧
            ((arena.objects.map Object.anchor).Nodup →
              (arena.objects.reverse.find? (fun o => o.anchor = u.owner) = some o ↔ n = owner)))) ∧
    (∀ v : Value, (∀ tag w, v ≠ .tagged tag w) → ¬IsReference v →
      referencedAnchor (some v) = noAnchor) ∧
    referencedAnchor none = noAnchor := by
  refine ⟨?_, ?_, ?_, ?_, rfl⟩
  · intro s n hs hn header body before after hwords hafter
    exact RawBlock.anchor_ofHeader hs hn hwords hafter body
  · intro l key c m h hmem hc hm hsome
    obtain ⟨ps, hps⟩ := Option.ne_none_iff_exists'.mp hsome
    obtain ⟨v, hv, href⟩ := hc.referencedAnchor_eq hm
    refine ⟨l.block ps, Entity.ofBlock? reserved (l.block ps) l.body, ?_, ?_⟩
    · rw [Layout.readings_text h, Layout.reading, hps]
    · rw [Layout.block, Layout.lookup_properties h hps hmem, hv, href]
  · intro blocks hblocks arena child m owner parent hchild hmem u
    refine ⟨Sorting.mem_sort.mpr (hchild.mem_transforms hblocks hmem), ?_, ?_, ?_⟩
    · intro j hj
      exact Arena.mem_roots_iff hj rfl
    · intro above n o p habove hmem' hn t
      refine ⟨Sorting.mem_sort.mpr (habove.mem_transforms hblocks hmem'), ?_⟩
      intro i j hi hj
      exact Arena.mem_children_iff hi hj rfl rfl hn
    · intro object n hobject hmem'
      obtain ⟨o, ho, hanchor⟩ := hobject.exists_mem_objects hblocks hmem'
      refine ⟨o, ho, ?_, fun hnodup => Arena.find?_owner_iff hnodup ho hanchor rfl⟩
      rw [hanchor]
      exact ⟨Text.ofInt_injective, fun h => h ▸ rfl⟩
  · intro v htag h
    exact referencedAnchor_of_not_isReference htag h

/-- A child that spells its parent `0100` between quotes, below a transform that spells itself
`+100`. -/
theorem anchors_meet_references_of_padded :
    let fileID (a : Yaml.Atom) : Content := .flow [("fileID".toList, a)]
    let above : Layout := ⟨['4'], "+100".toList, "Transform".toList,
      [("m_GameObject".toList, fileID (.plain ['7'])),
        ("m_Father".toList, fileID (.plain "-0".toList))]⟩
    let child : Layout := ⟨['4'], "-05".toList, "RectTransform".toList,
      [("m_GameObject".toList, fileID (.single "+7".toList)),
        ("m_Father".toList, .nested 4 [("fileID".toList, .double "0100".toList)])]⟩
    let object : Layout := ⟨['1'], "007".toList, "GameObject".toList,
      [("m_Name".toList, .atom (.plain "Root".toList))]⟩
    let blocks := [child.text, above.text, object.text]
    let arena := Arena.ofScene (parse [] blocks.flatten)
    arena.transforms = [⟨"-5".toList, ['7'], "100".toList⟩, ⟨"100".toList, ['7'], ['0']⟩] ∧
      0 ∈ arena.children 1 ∧ 1 ∈ arena.roots ∧
      arena.objects.reverse.find? (fun o => o.anchor = ['7']) = some ⟨['7'], "Root".toList⟩ := by
  repeat rw [String.toList_ofList]
  intro fileID above child object blocks arena
  have hblocks : ∀ b ∈ blocks, IsBlock b := by decide
  have hsome : ∀ {l : Layout}, l.properties?.isSome = true → l.properties? ≠ none :=
    Option.isSome_iff_ne_none.mp
  have habove : above.IsTransform 100 7 0 := ⟨by decide +kernel, by decide, .plus 0 100, by decide,
    ⟨fileID (.plain ['7']), by decide, .flow (.unsigned 0 7) (by decide)⟩,
    ⟨fileID (.plain "-0".toList), by decide, .flow (.minus 0 0) (by decide)⟩, hsome (by decide)⟩
  have hchild : child.IsTransform (-5) 7 100 := ⟨by decide +kernel, by decide, .minus 1 5,
    by decide, ⟨fileID (.single "+7".toList), by decide, .flow (.plus 0 7) (by decide)⟩,
    ⟨.nested 4 [("fileID".toList, .double "0100".toList)], by decide,
      .nested 4 (.unsigned 1 100) (by decide)⟩, hsome (by decide)⟩
  have hobject : object.IsObject 7 :=
    ⟨by decide +kernel, by decide, .unsigned 2 7, by decide, hsome (by decide)⟩
  obtain ⟨htransforms, hobjects⟩ : arena.transforms =
        [⟨"-5".toList, ['7'], "100".toList⟩, ⟨"100".toList, ['7'], ['0']⟩] ∧
      arena.objects = [⟨['7'], "Root".toList⟩] := by decide +kernel
  obtain ⟨-, -, hscene, -, -⟩ := anchors_meet_references []
  obtain ⟨-, -, hbelow, howner⟩ :=
    hscene blocks hblocks child (-5) 7 100 hchild List.mem_cons_self
  obtain ⟨-, hroot, -, -⟩ := hscene blocks hblocks above 100 7 0 habove (by simp [blocks])
  obtain ⟨-, hedge⟩ := hbelow above 100 7 0 habove (by simp [blocks]) (by decide)
  obtain ⟨o, ho, -, hfind⟩ := howner object 7 hobject (by simp [blocks])
  have hone : arena.transforms[1]? = some ⟨"100".toList, ['7'], ['0']⟩ := by rw [htransforms]; rfl
  have hzero : arena.transforms[0]? = some ⟨"-5".toList, ['7'], "100".toList⟩ := by
    rw [htransforms]
    rfl
  obtain rfl : o = ⟨['7'], "Root".toList⟩ := by
    have ho' : o ∈ arena.objects := ho
    rw [hobjects] at ho'
    exact List.mem_singleton.mp ho'
  have hnodup : (arena.objects.map Object.anchor).Nodup := by
    rw [hobjects]
    decide
  exact ⟨htransforms, (hedge 1 0 hone hzero).mpr rfl, (hroot 1 hone).mpr rfl,
    (hfind hnodup).mpr rfl⟩

end SceneAudit
