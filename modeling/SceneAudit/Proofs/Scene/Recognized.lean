import SceneAudit.Proofs.Scene.Seams
import SceneAudit.Proofs.Yaml.Meaning

/-! # Blocks and what is made of them

A raw block with an anchor comes to one of three things: it is malformed, it is passed over because
its body is not a mapping that begins with a string key, or it is a block of the scene. The entities
of a scene are those of its blocks that have a recognized kind, in the same order.
-/

namespace SceneAudit

namespace Scene

open Yaml (Value)

/-- Blocks of this kind stand for entities. -/
def BlockKind.isRecognized : BlockKind → Bool
  | .other _ => false
  | _ => true

/-- A mapping whose first key is a string, tags on the key aside. -/
def beginsWithString : Value → Bool
  | .mapping ((key, _) :: _) => key.asString?.isSome
  | _ => false

/-- The body can be read and is such a mapping. -/
def RawBlock.isShaped (raw : RawBlock) : Bool :=
  (Value.ofText? raw.body).any beginsWithString

/-- The body can be read but is no such mapping. -/
def RawBlock.isShapeless (raw : RawBlock) : Bool :=
  (Value.ofText? raw.body).any fun value => !beginsWithString value

def Block.IsUntagged (b : Block) : Prop :=
  ∀ p ∈ b.properties, ∀ tag value, p.1 ≠ .tagged tag value

/-- The raw block is read as the block. -/
structure IsBlockOf (raw : RawBlock) (b : Block) : Prop where
  anchor : raw.anchor = some b.anchor
  stripped : b.stripped = raw.stripped
  body : ∃ key value rest name, Value.ofText? raw.body = some (.mapping ((key, value) :: rest)) ∧
    key.untag = .string name ∧ b.kind = .ofName name ∧
    (∀ entries, value = .mapping entries → b.properties = entries) ∧
    ((∀ entries, value ≠ .mapping entries) → b.properties = [])

/-- What a block of a recognized kind stands for. -/
inductive StandsFor (reserved : List Text) (b : Block) : Entity → Prop where
  | object {o : Object} (kind : b.kind = .object) (anchor : o.anchor = b.anchor) :
      StandsFor reserved b (.object o)
  | transform {t : Transform} (kind : b.kind = .transform) (anchor : t.anchor = b.anchor) :
      StandsFor reserved b (.transform t)
  | behavior {c : Behavior} (kind : b.kind = .behavior) (anchor : c.anchor = b.anchor)
      (fields : c.fields = (b.properties.filterMap fun p => p.1.asString?).filter (· ∉ reserved))
      (distinct : b.IsUntagged → c.fields.Nodup) :
      StandsFor reserved b (.behavior c)

/-- What a raw block comes to. -/
inductive ComesTo (reserved : List Text) (raw : RawBlock) : Reading → Prop where
  | unanchored (anchor : raw.anchor = none) : ComesTo reserved raw .ignored
  | malformed (anchor : raw.anchor.isSome = true) (body : Value.ofText? raw.body = none) :
      ComesTo reserved raw .malformed
  | shapeless (anchor : raw.anchor.isSome = true) (body : raw.isShapeless = true) :
      ComesTo reserved raw .ignored
  | block {b : Block} (h : IsBlockOf raw b) (body : raw.isShaped = true) :
      ComesTo reserved raw (.block b (Entity.ofBlock? reserved b raw.body))

theorem RawBlock.isShaped_of_isShapeless {raw : RawBlock} (h : raw.isShapeless = true) :
    raw.isShaped = false := by
  unfold isShapeless at h
  unfold isShaped
  cases hvalue : Value.ofText? raw.body with
  | none => rfl
  | some value => simpa [hvalue] using h

theorem RawBlock.ne_none_of_isShapeless {raw : RawBlock} (h : raw.isShapeless = true) :
    Value.ofText? raw.body ≠ none := by
  intro hvalue
  simp [isShapeless, hvalue] at h

theorem ofReadings_cons (r : Reading) (rs : List Reading) :
    ofReadings (r :: rs) =
      ⟨r.block?.toList ++ (ofReadings rs).blocks, r.entity?.toList ++ (ofReadings rs).entities,
        r.isMalformed.toNat + (ofReadings rs).malformed⟩ := by
  rw [← List.singleton_append, ofReadings_append, ofReadings_singleton]

section Keys

variable {properties : List (Value × Value)}

theorem eq_string_of_asString? {key : Value} {t : Text} (huntagged : ∀ tag v, key ≠ .tagged tag v)
    (h : key.asString? = some t) : key = .string t := by
  cases key with
  | scalar s => cases s <;> simp_all [Value.asString?, Value.untag, Value.string?, Value.string]
  | tagged tag v => exact absurd rfl (huntagged tag v)
  | _ => simp [Value.asString?, Value.untag, Value.string?] at h

theorem nodup_stringKeys (h : Yaml.Distinct properties)
    (huntagged : ∀ p ∈ properties, ∀ tag v, p.1 ≠ .tagged tag v) :
    (properties.filterMap fun p => p.1.asString?).Nodup := by
  refine List.Pairwise.filterMap _ ?_ (h.imp_of_mem (S := fun p q =>
    p ∈ properties ∧ q ∈ properties ∧ Value.same p.1 q.1 = false) fun hp hq hpq => ⟨hp, hq, hpq⟩)
  rintro p q ⟨hp, hq, hdiffers⟩ s hs t ht rfl
  rw [eq_string_of_asString? (huntagged p hp) hs, eq_string_of_asString? (huntagged q hq) ht,
    Yaml.same_string] at hdiffers
  simp at hdiffers

end Keys

variable {reserved : List Text} {raw : RawBlock} {b : Block}

theorem IsBlockOf.distinct (h : IsBlockOf raw b) : Yaml.Distinct b.properties := by
  obtain ⟨key, value, rest, name, hvalue, -, -, hmapping, hother⟩ := h.body
  by_cases hv : ∃ entries, value = .mapping entries
  · obtain ⟨entries, rfl⟩ := hv
    rw [hmapping entries rfl]
    exact Yaml.distinct_of_ofText? hvalue List.mem_cons_self
  · rw [hother fun entries heq => hv ⟨entries, heq⟩]
    exact List.Pairwise.nil

theorem IsBlockOf.entity (h : IsBlockOf raw b) (reserved : List Text) :
    (b.kind.isRecognized = false ∧ Entity.ofBlock? reserved b raw.body = none) ∨
      b.kind.isRecognized = true ∧
        ∃ e, Entity.ofBlock? reserved b raw.body = some e ∧ StandsFor reserved b e := by
  unfold Entity.ofBlock?
  cases hkind : b.kind with
  | object => exact Or.inr ⟨rfl, _, rfl, .object hkind rfl⟩
  | transform => exact Or.inr ⟨rfl, _, rfl, .transform hkind rfl⟩
  | behavior =>
    have hfields : Entity.serializedFields reserved b.properties =
        (b.properties.filterMap fun p => p.1.asString?).filter (· ∉ reserved) := by
      simp [Entity.serializedFields]
    refine Or.inr ⟨rfl, _, rfl, .behavior hkind rfl hfields fun huntagged => ?_⟩
    rw [show Behavior.fields _ = _ from hfields]
    exact (nodup_stringKeys h.distinct huntagged).filter _
  | other name => exact Or.inl ⟨rfl, rfl⟩

theorem bodyEntry?_eq_none_iff (value : Value) :
    bodyEntry? value = none ↔ beginsWithString value = false := by
  unfold bodyEntry?
  split
  · rename_i key value rest
    simp only [beginsWithString]
    cases key.asString? with
    | none => simp
    | some name => cases value <;> simp
  · rename_i hother
    unfold beginsWithString
    split
    · exact absurd rfl (hother _ _ _)
    · simp

theorem exists_of_bodyEntry? {value : Value} {name : Text} {properties : List (Value × Value)}
    (h : bodyEntry? value = some (name, properties)) : ∃ key v rest,
      value = .mapping ((key, v) :: rest) ∧ key.untag = .string name ∧
      (∀ entries, v = .mapping entries → properties = entries) ∧
      ((∀ entries, v ≠ .mapping entries) → properties = []) := by
  have hstring : ∀ {v : Value} {t : Text}, v.asString? = some t → v.untag = .string t := by
    intro v t ht
    unfold Value.asString? Value.string? at ht
    split at ht
    · rename_i hv
      rw [hv, Option.some.inj ht]
      rfl
    · contradiction
  unfold bodyEntry? at h
  split at h
  · rename_i key v rest
    refine ⟨key, v, rest, rfl, ?_⟩
    split at h
    · rename_i hkey
      obtain ⟨rfl, rfl⟩ := Prod.mk.inj (Option.some.inj h)
      exact ⟨hstring hkey, fun _ heq => Value.mapping.inj heq, fun hne => absurd rfl (hne _)⟩
    · rename_i hkey hother
      obtain ⟨rfl, rfl⟩ := Prod.mk.inj (Option.some.inj h)
      exact ⟨hstring hkey, fun entries heq => absurd heq (hother entries), fun _ => rfl⟩
    · contradiction
  · contradiction

theorem comesTo_ofRaw (reserved : List Text) (raw : RawBlock) :
    ComesTo reserved raw (Reading.ofRaw reserved raw) := by
  unfold Reading.ofRaw
  cases hanchor : raw.anchor with
  | none => exact .unanchored hanchor
  | some anchor =>
    have hsome : raw.anchor.isSome = true := by rw [hanchor]; rfl
    simp only [Reading.ofBody]
    cases hvalue : Value.ofText? raw.body with
    | none => exact .malformed hsome hvalue
    | some value =>
      have hshape := bodyEntry?_eq_none_iff value
      cases hentry : bodyEntry? value with
      | none =>
        have hshapeless : raw.isShapeless = true := by
          simp [RawBlock.isShapeless, hvalue, hshape.mp hentry]
        simpa only [hentry] using ComesTo.shapeless hsome hshapeless
      | some entry =>
        obtain ⟨name, properties⟩ := entry
        have hshaped : raw.isShaped = true := by
          by_contra hnot
          have hnone := hshape.mpr (by simpa [RawBlock.isShaped, hvalue] using hnot)
          exact nomatch hentry.symm.trans hnone
        obtain ⟨key, v, rest, rfl, hkey, hmapping, hother⟩ := exists_of_bodyEntry? hentry
        have hblock : IsBlockOf raw ⟨anchor, .ofName name, raw.stripped, properties⟩ :=
          ⟨hanchor, rfl, key, v, rest, name, hvalue, hkey, rfl, hmapping, hother⟩
        simpa only [hentry] using ComesTo.block hblock hshaped

section Blocks

theorem forall₂_blocks (reserved : List Text) (raws : List RawBlock) :
    List.Forall₂ IsBlockOf (raws.filter fun raw => raw.isShaped && raw.anchor.isSome)
      (ofReadings (raws.map (Reading.ofRaw reserved))).blocks := by
  induction raws with
  | nil => exact .nil
  | cons raw raws ih =>
    have hraw := comesTo_ofRaw reserved raw
    rw [List.map_cons, ofReadings_cons]
    generalize Reading.ofRaw reserved raw = reading at hraw
    cases hraw with
    | unanchored hanchor => simpa [Reading.block?, hanchor] using ih
    | malformed hanchor hbody =>
      have hshaped : raw.isShaped = false := by simp [RawBlock.isShaped, hbody]
      simpa [Reading.block?, hshaped] using ih
    | shapeless hanchor hbody =>
      have hshaped : raw.isShaped = false := raw.isShaped_of_isShapeless hbody
      simpa [Reading.block?, hshaped] using ih
    | block hblock hbody =>
      simpa [Reading.block?, hblock.anchor, hbody] using List.Forall₂.cons hblock ih

theorem forall₂_entities (reserved : List Text) (raws : List RawBlock) :
    List.Forall₂ (StandsFor reserved)
      ((ofReadings (raws.map (Reading.ofRaw reserved))).blocks.filter fun b => b.kind.isRecognized)
      (ofReadings (raws.map (Reading.ofRaw reserved))).entities := by
  induction raws with
  | nil => exact .nil
  | cons raw raws ih =>
    have hraw := comesTo_ofRaw reserved raw
    rw [List.map_cons, ofReadings_cons]
    generalize Reading.ofRaw reserved raw = reading at hraw
    cases hraw with
    | unanchored => simpa [Reading.block?, Reading.entity?] using ih
    | malformed => simpa [Reading.block?, Reading.entity?] using ih
    | shapeless => simpa [Reading.block?, Reading.entity?] using ih
    | block hblock _ =>
      rcases hblock.entity reserved with ⟨hkind, hnone⟩ | ⟨hkind, e, hsome, hstands⟩
      · simpa [Reading.block?, Reading.entity?, hkind, hnone] using ih
      · simpa [Reading.block?, Reading.entity?, hkind, hsome] using List.Forall₂.cons hstands ih

theorem malformed_eq (reserved : List Text) (raws : List RawBlock) :
    (ofReadings (raws.map (Reading.ofRaw reserved))).malformed =
      (raws.filter fun raw => raw.anchor.isSome).countP fun raw =>
        (Value.ofText? raw.body).isNone := by
  induction raws with
  | nil => rfl
  | cons raw raws ih =>
    have hraw := comesTo_ofRaw reserved raw
    rw [List.map_cons, ofReadings_cons, ih, List.filter_cons]
    generalize Reading.ofRaw reserved raw = reading at hraw
    cases hraw with
    | unanchored hanchor => simp [Reading.isMalformed, hanchor]
    | malformed hanchor hbody =>
      simp [Reading.isMalformed, hanchor, hbody, Nat.add_comm]
    | shapeless hanchor hbody =>
      have hread := raw.ne_none_of_isShapeless hbody
      simp [Reading.isMalformed, hanchor, hread]
    | block hblock hbody =>
      obtain ⟨_, _, _, _, hread, -⟩ := hblock.body
      simp [Reading.isMalformed, hblock.anchor, hread]

/-- A body is of the right shape, of another shape, or malformed. -/
theorem length_eq_of_bodies (raws : List RawBlock) :
    (raws.filter RawBlock.isShaped).length +
        raws.countP (fun raw => (Value.ofText? raw.body).isNone) +
      raws.countP RawBlock.isShapeless = raws.length := by
  induction raws with
  | nil => rfl
  | cons raw raws ih =>
    rw [List.filter_cons, List.countP_cons, List.countP_cons, List.length_cons, ← ih]
    cases hvalue : Value.ofText? raw.body with
    | none =>
      simp [RawBlock.isShaped, RawBlock.isShapeless, hvalue]
      omega
    | some value =>
      cases hbegins : beginsWithString value <;>
        simp [RawBlock.isShaped, RawBlock.isShapeless, hvalue, hbegins] <;> omega

end Blocks

end Scene

open Scene

/-- The entities of a scene stand for its blocks of recognized kinds, one for each and in order.
Blocks come from raw blocks that have an anchor and a body of the right shape; of the others with an
anchor, those that cannot be read are counted as malformed. -/
theorem entities_match_blocks (reserved : List Text) (text : Text) :
    let scene := parse reserved text
    let anchored := (RawBlock.split text).filter fun raw => raw.anchor.isSome
    List.Forall₂ (StandsFor reserved) (scene.blocks.filter fun b => b.kind.isRecognized)
        scene.entities ∧
      List.Forall₂ IsBlockOf (anchored.filter RawBlock.isShaped) scene.blocks ∧
      scene.malformed = anchored.countP (fun raw => (Yaml.Value.ofText? raw.body).isNone) ∧
      scene.blocks.length + scene.malformed ≤ anchored.length ∧
      scene.blocks.length + scene.malformed + anchored.countP RawBlock.isShapeless =
        anchored.length := by
  intro scene anchored
  have hblocks : List.Forall₂ IsBlockOf (anchored.filter RawBlock.isShaped) scene.blocks := by
    have hfilter := forall₂_blocks reserved (RawBlock.split text)
    rwa [← List.filter_filter] at hfilter
  have hmalformed := malformed_eq reserved (RawBlock.split text)
  have hcount : scene.blocks.length + scene.malformed + anchored.countP RawBlock.isShapeless =
      anchored.length := by
    rw [← hblocks.length_eq, show scene.malformed = _ from hmalformed]
    exact length_eq_of_bodies anchored
  exact ⟨forall₂_entities reserved _, hblocks, hmalformed, by omega, hcount⟩

end SceneAudit
