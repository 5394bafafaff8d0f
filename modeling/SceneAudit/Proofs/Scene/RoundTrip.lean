import SceneAudit.Config.Basic
import SceneAudit.Proofs.Scene.Entities
import SceneAudit.Proofs.Scene.Seams

/-! # Writing and reading scenes

Objects, transforms and behaviors are written in the layout of an editor and read back as what they
are, in the same order. Names and identifiers may look like numbers, truth values or nothing at all.
-/

namespace SceneAudit.Scene

open Yaml (Atom IsKey IsName IsIdentifier isLetter)
open Yaml.Scalar (isNull bool? integer?)

/-- An entity to be written to a scene. -/
inductive Piece where
  | object (anchor : Int) (name : Text)
  | transform (anchor owner parent : Int)
  | behavior (anchor owner : Int) (script : Text) (fields : List (Text × Int))
  deriving DecidableEq, Repr

/-- The directives in front of the blocks of a scene. -/
def preamble : Text :=
  "%YAML 1.1\n%TAG !u! tag:unity3d.com,2011:\n".toList

namespace Piece

open Text (ofInt)

def fieldLine (field : Text × Int) : Text :=
  "  ".toList ++ (field.1 ++ (": ".toList ++ ofInt field.2))

def referenceLine (front : String) (n : Int) : Text :=
  front.toList ++ ("\x7bfileID: ".toList ++ (ofInt n ++ "\x7d".toList))

/-- The lines of the block of an entity. -/
def lines : Piece → List Text
  | object anchor name =>
    ["--- !u!1 &".toList ++ ofInt anchor,
      "GameObject:".toList,
      "  m_ObjectHideFlags: 0".toList,
      "  serializedVersion: 6".toList,
      "  m_Name: ".toList ++ name,
      "  m_IsActive: 1".toList]
  | transform anchor owner parent =>
    ["--- !u!4 &".toList ++ ofInt anchor,
      "Transform:".toList,
      "  m_ObjectHideFlags: 0".toList,
      referenceLine "  m_GameObject: " owner,
      "  m_LocalPosition: \x7bx: 0, y: 0, z: 0\x7d".toList,
      "  m_Children: []".toList,
      referenceLine "  m_Father: " parent]
  | behavior anchor owner script fields =>
    ["--- !u!114 &".toList ++ ofInt anchor,
      "MonoBehaviour:".toList,
      "  m_ObjectHideFlags: 0".toList,
      "  m_CorrespondingSourceObject: \x7bfileID: 0\x7d".toList,
      "  m_PrefabInstance: \x7bfileID: 0\x7d".toList,
      "  m_PrefabAsset: \x7bfileID: 0\x7d".toList,
      referenceLine "  m_GameObject: " owner,
      "  m_Enabled: 1".toList,
      "  m_EditorHideFlags: 0".toList,
      "  m_Script: \x7bfileID: 11500000, guid: ".toList ++ (script ++ ", type: 3\x7d".toList),
      "  m_Name: ".toList,
      "  m_EditorClassIdentifier: ".toList] ++ fields.map fieldLine

/-- The block of an entity. -/
def text (p : Piece) : Text :=
  Text.unlines p.lines

/-- What the block stands for. -/
def entity : Piece → Entity
  | object anchor name => .object ⟨ofInt anchor, name⟩
  | transform anchor owner parent => .transform ⟨ofInt anchor, ofInt owner, ofInt parent⟩
  | behavior anchor _ script fields => .behavior ⟨ofInt anchor, script, fields.map Prod.fst⟩

/-- The integer fits 64 bits. -/
abbrev Fits (n : Int) : Prop :=
  Text.fitsSigned 64 n = true

/-- A name: letters, digits, underscores and points, spaces only between them, and no integer that
is too large. -/
structure IsObjectName (t : Text) : Prop where
  chars : ∀ c ∈ t, (isLetter c || Text.isDigit c || c == '_' || c == '.' || c == ' ') = true
  head : t.head? ≠ some ' '
  last : t.getLast? ≠ some ' '
  nonempty : t ≠ []
  integer : integer? t ≠ none

instance : DecidablePred IsObjectName := fun t =>
  decidable_of_iff ((∀ c ∈ t, (isLetter c || Text.isDigit c || c == '_' || c == '.' || c == ' ') =
    true) ∧ t.head? ≠ some ' ' ∧ t.getLast? ≠ some ' ' ∧ t ≠ [] ∧ integer? t ≠ none)
    ⟨fun h => ⟨h.1, h.2.1, h.2.2.1, h.2.2.2.1, h.2.2.2.2⟩, fun h => ⟨h.1, h.2, h.3, h.4, h.5⟩⟩

/-- An identifier of a script: letters and digits, and no integer that is too large. -/
structure IsScriptIdentifier (t : Text) : Prop where
  chars : ∀ c ∈ t, (isLetter c || Text.isDigit c) = true
  nonempty : t ≠ []
  integer : integer? t ≠ none

instance : DecidablePred IsScriptIdentifier := fun t =>
  decidable_of_iff ((∀ c ∈ t, (isLetter c || Text.isDigit c) = true) ∧ t ≠ [] ∧ integer? t ≠ none)
    ⟨fun h => ⟨h.1, h.2.1, h.2.2⟩, fun h => ⟨h.1, h.2, h.3⟩⟩

/-- The key of a serialized field. -/
structure IsFieldKey (key : Text) : Prop where
  identifier : IsIdentifier key
  unreserved : key ∉ UsageConfig.default.reservedFields
  notNull : isNull key = false
  notBool : bool? key = none

instance : DecidablePred IsFieldKey := fun key =>
  decidable_of_iff (IsIdentifier key ∧ UsageConfig.default.reservedFields.contains key = false ∧
    isNull key = false ∧ bool? key = none)
    ⟨fun h => ⟨h.1, by simpa using h.2.1, h.2.2.1, h.2.2.2⟩,
      fun h => ⟨h.1, by simpa using h.2, h.3, h.4⟩⟩

/-- The keys of the serialized fields. -/
def keys : Piece → List Text
  | behavior _ _ _ fields => fields.map Prod.fst
  | _ => []

/-- The numbers of the entity fit 64 bits, and its names may be written as they are. -/
def IsAdmissible : Piece → Prop
  | object anchor name => Fits anchor ∧ IsObjectName name
  | transform anchor owner parent => Fits anchor ∧ Fits owner ∧ Fits parent
  | behavior anchor owner script fields => Fits anchor ∧ Fits owner ∧ IsScriptIdentifier script ∧
      (fields.map Prod.fst).Nodup ∧ ∀ f ∈ fields, IsFieldKey f.1 ∧ Fits f.2

instance : DecidablePred IsAdmissible := fun p =>
  match p with
  | object anchor name => inferInstanceAs (Decidable (Fits anchor ∧ IsObjectName name))
  | transform anchor owner parent =>
    inferInstanceAs (Decidable (Fits anchor ∧ Fits owner ∧ Fits parent))
  | behavior anchor owner script fields =>
    inferInstanceAs (Decidable (Fits anchor ∧ Fits owner ∧ IsScriptIdentifier script ∧
      (fields.map Prod.fst).Nodup ∧ ∀ f ∈ fields, IsFieldKey f.1 ∧ Fits f.2))

def scalar (n : Int) : Content :=
  .atom (.plain (ofInt n))

/-- A reference as a content. -/
def reference (n : Int) : Content :=
  .flow [("fileID".toList, .plain (ofInt n))]

/-- The properties of a behavior in front of its serialized fields. -/
def structuralProperties (owner : Int) (script : Text) : List (Text × Content) :=
  [("m_ObjectHideFlags".toList, scalar 0), ("m_CorrespondingSourceObject".toList, reference 0),
    ("m_PrefabInstance".toList, reference 0), ("m_PrefabAsset".toList, reference 0),
    ("m_GameObject".toList, reference owner), ("m_Enabled".toList, scalar 1),
    ("m_EditorHideFlags".toList, scalar 0), ("m_Script".toList, .flow (scriptEntries script)),
    ("m_Name".toList, .nothing 1), ("m_EditorClassIdentifier".toList, .nothing 1)]

/-- The block of an entity by its parts. -/
def layout : Piece → Layout
  | object anchor name => ⟨['1'], ofInt anchor, "GameObject".toList,
      [("m_ObjectHideFlags".toList, scalar 0), ("serializedVersion".toList, scalar 6),
        ("m_Name".toList, .atom (.plain name)), ("m_IsActive".toList, scalar 1)]⟩
  | transform anchor owner parent => ⟨['4'], ofInt anchor, "Transform".toList,
      [("m_ObjectHideFlags".toList, scalar 0), ("m_GameObject".toList, reference owner),
        ("m_LocalPosition".toList,
          .flow [(['x'], .plain ['0']), (['y'], .plain ['0']), (['z'], .plain ['0'])]),
        ("m_Children".toList, .noItems), ("m_Father".toList, reference parent)]⟩
  | behavior anchor owner script fields => ⟨"114".toList, ofInt anchor, "MonoBehaviour".toList,
      structuralProperties owner script ++ fields.map fun f => (f.1, scalar f.2)⟩

theorem text_layout (p : Piece) : p.layout.text = p.text := by
  cases p with
  | object anchor name =>
    simp only [layout, Layout.text, Layout.headerWords, Layout.bodyLines, RawBlock.headerMark, text,
      lines, scalar]
    repeat rw [String.toList_ofList]
    rfl
  | transform anchor owner parent =>
    simp only [layout, Layout.text, Layout.headerWords, Layout.bodyLines, RawBlock.headerMark, text,
      lines, scalar, reference, referenceLine]
    repeat rw [String.toList_ofList]
    rfl
  | behavior anchor owner script fields =>
    have hfields : (fields.map fun f => (f.1, scalar f.2)).flatMap Layout.propertyLines =
        fields.map fieldLine := by
      rw [List.flatMap_map, List.map_eq_flatMap]
      rfl
    rw [Layout.text, Layout.bodyLines, layout, List.flatMap_append, hfields]
    simp only [Layout.headerWords, RawBlock.headerMark, text, lines, structuralProperties, scalar,
      reference, scriptEntries, referenceLine]
    repeat rw [String.toList_ofList]
    rfl

section Parts

theorem isPlain_of_isObjectName {t : Text} (h : IsObjectName t) : Yaml.IsPlain t := by
  have hchar : ∀ c ∈ t, c ≠ ' ' → Yaml.isWordChar c = true := by
    intro c hc hne
    have hname := h.chars c hc
    simp only [Bool.or_eq_true, beq_iff_eq] at hname
    rcases hname with (((hletter | hdigit) | rfl) | rfl) | rfl
    · simp [Yaml.isWordChar, hletter]
    · simp [Yaml.isWordChar, hdigit]
    · rfl
    · rfl
    · exact absurd rfl hne
  have hquiet : ∀ c ∈ t, c ≠ ' ' → Yaml.isQuiet c = true := fun c hc hne =>
    Yaml.isQuiet_of_isWordChar (hchar c hc hne)
  refine ⟨?_, fun c hc => (ne_or_eq c ' ').imp_left (hquiet c hc), h.last⟩
  obtain ⟨c, u, rfl⟩ := List.exists_cons_of_ne_nil h.nonempty
  have hspace : c ≠ ' ' := fun heq => h.head (by rw [heq]; rfl)
  have hdash : c ≠ '-' := by
    rintro rfl
    exact absurd (h.chars '-' List.mem_cons_self) (by decide)
  rw [Yaml.startsWord, hquiet c List.mem_cons_self hspace,
    Yaml.isIndicator_of_isWordChar (hchar c List.mem_cons_self hspace) hdash]
  rfl

theorem isWordChar_of_isScriptIdentifier {t : Text} (h : IsScriptIdentifier t) :
    ∀ c ∈ t, Yaml.isWordChar c = true := by
  intro c hc
  have hchar := h.chars c hc
  rw [Bool.or_eq_true] at hchar
  rcases hchar with hletter | hdigit
  · simp [Yaml.isWordChar, hletter]
  · simp [Yaml.isWordChar, hdigit]

theorem isPlain_of_isScriptIdentifier {t : Text} (h : IsScriptIdentifier t) : Yaml.IsPlain t := by
  refine Yaml.isPlain_of_isWordChar (isWordChar_of_isScriptIdentifier h) h.nonempty ?_
  rintro rfl
  exact absurd (h.chars '-' List.mem_cons_self) (by decide)

theorem isKey_of_isFieldKey {key : Text} (h : IsFieldKey key) (hshort : key.length ≤ 1024) :
    IsKey key ∧ IsName key := by
  have hchar : ∀ c ∈ key, Yaml.isWordChar c = true := by
    intro c hc
    have hident := h.identifier.chars c hc
    simp only [Bool.or_eq_true, beq_iff_eq] at hident
    rcases hident with (hletter | hdigit) | rfl
    · simp [Yaml.isWordChar, hletter]
    · simp [Yaml.isWordChar, hdigit]
    · rfl
  have hplain : Yaml.IsPlain key := by
    obtain ⟨c, u, rfl, hc⟩ := h.identifier.exists_head
    refine Yaml.isPlain_of_isWordChar hchar (List.cons_ne_nil c u) ?_
    rintro ⟨⟩
    exact absurd hc (by decide)
  exact ⟨⟨hplain.start, fun c hc => Yaml.isQuiet_of_isWordChar (hchar c hc), hshort⟩,
    Yaml.isName_of_isIdentifier h.identifier h.notNull h.notBool⟩

theorem isVerbatim_scalar (n : Int) : (scalar n).IsVerbatim :=
  Yaml.isPlain_of_spells (Text.spells_ofInt n)

theorem refers_reference (n : Int) : Refers n (reference n) :=
  .flow (Text.spells_ofInt n) (Or.inl rfl)

theorem isVerbatim_reference (n : Int) : (reference n).IsVerbatim :=
  isAtomic_reference (isVerbatim_scalar n)

theorem isWord_ofInt (n : Int) : Text.IsWord (ofInt n) ∧ ofInt n ≠ [] :=
  ⟨isWord_of_spells (Text.spells_ofInt n), (Text.spells_ofInt n).ne_nil⟩

theorem structuralProperties_reserved (owner : Int) (script : Text) :
    ∀ key ∈ (structuralProperties owner script).map Prod.fst,
      key ∈ UsageConfig.default.reservedFields := by
  simp only [structuralProperties, List.map_cons, List.map_nil, UsageConfig.default,
    UsageConfig.structuralFields]
  repeat rw [String.toList_ofList]
  decide

theorem isKey_of_reserved :
    ∀ key ∈ UsageConfig.default.reservedFields, IsKey key ∧ IsName key := by
  simp only [UsageConfig.default, UsageConfig.structuralFields, List.map_cons, List.map_nil]
  repeat rw [String.toList_ofList]
  decide

theorem isKey_typeName (p : Piece) :
    IsKey p.layout.name ∧ IsName p.layout.name ∧ p.layout.name.head? ≠ some '-' := by
  have hnames : ∀ name ∈ ["GameObject".toList, "Transform".toList, "MonoBehaviour".toList],
      IsKey name ∧ IsName name ∧ name.head? ≠ some '-' := by
    repeat rw [String.toList_ofList]
    decide
  cases p <;> exact hnames _ (by simp only [layout, List.mem_cons, true_or, or_true])

end Parts

theorem isVerbatim_object {anchor : Int} {name : Text} (hname : IsObjectName name) :
    (object anchor name).layout.IsVerbatim where
  classId := (by decide : Text.IsWord ['1'])
  anchor := isWord_ofInt anchor
  name := isKey_typeName (object anchor name)
  keys := by
    simp only [layout, List.map_cons, List.map_nil]
    repeat rw [String.toList_ofList]
    decide
  contents := by
    simp only [layout, List.forall_mem_cons]
    exact ⟨isVerbatim_scalar 0, isVerbatim_scalar 6, isPlain_of_isObjectName hname,
      isVerbatim_scalar 1, List.forall_mem_nil _⟩
  nodup := by
    simp only [layout, List.map_cons, List.map_nil]
    repeat rw [String.toList_ofList]
    decide
  nonempty := List.cons_ne_nil _ _

theorem isVerbatim_transform (anchor owner parent : Int) :
    (transform anchor owner parent).layout.IsVerbatim where
  classId := (by decide : Text.IsWord ['4'])
  anchor := isWord_ofInt anchor
  name := isKey_typeName (transform anchor owner parent)
  keys := by
    simp only [layout, List.map_cons, List.map_nil]
    repeat rw [String.toList_ofList]
    decide
  contents := by
    have hposition : (Content.flow [(['x'], .plain ['0']), (['y'], .plain ['0']),
        (['z'], .plain ['0'])]).IsVerbatim := by decide
    simp only [layout, List.forall_mem_cons]
    exact ⟨isVerbatim_scalar 0, isVerbatim_reference owner, hposition, trivial,
      isVerbatim_reference parent, List.forall_mem_nil _⟩
  nodup := by
    simp only [layout, List.map_cons, List.map_nil]
    repeat rw [String.toList_ofList]
    decide
  nonempty := List.cons_ne_nil _ _

theorem isVerbatim_behavior {anchor owner : Int} {script : Text} {fields : List (Text × Int)}
    (hscript : IsScriptIdentifier script) (hnodup : (fields.map Prod.fst).Nodup)
    (hfields : ∀ f ∈ fields, IsFieldKey f.1 ∧ f.1.length ≤ 1024) :
    (behavior anchor owner script fields).layout.IsVerbatim := by
  have hkeys : (behavior anchor owner script fields).layout.properties.map Prod.fst =
      (structuralProperties owner script).map Prod.fst ++ fields.map Prod.fst := by
    simp [layout]
  refine ⟨(by decide : Text.IsWord "114".toList), isWord_ofInt anchor,
    isKey_typeName (behavior anchor owner script fields), ?_, ?_, ?_, List.cons_ne_nil _ _⟩
  · rw [hkeys]
    intro key hkey
    rcases List.mem_append.mp hkey with hkey | hkey
    · exact isKey_of_reserved key (structuralProperties_reserved owner script key hkey)
    · obtain ⟨f, hf, rfl⟩ := List.mem_map.mp hkey
      exact isKey_of_isFieldKey (hfields f hf).1 (hfields f hf).2
  · intro p hp
    rcases List.mem_append.mp hp with hp | hp
    · have hcontents : ∀ p ∈ structuralProperties owner script, p.2.IsVerbatim := by
        simp only [structuralProperties, List.forall_mem_cons]
        exact ⟨isVerbatim_scalar 0, isVerbatim_reference 0, isVerbatim_reference 0,
          isVerbatim_reference 0, isVerbatim_reference owner, isVerbatim_scalar 1,
          isVerbatim_scalar 0, isAtomic_scriptEntries (isPlain_of_isScriptIdentifier hscript),
          trivial, trivial, List.forall_mem_nil _⟩
      exact hcontents p hp
    · obtain ⟨f, -, rfl⟩ := List.mem_map.mp hp
      exact isVerbatim_scalar f.2
  · rw [hkeys]
    refine List.nodup_append'.mpr ⟨?_, hnodup, ?_⟩
    · simp only [structuralProperties, List.map_cons, List.map_nil]
      repeat rw [String.toList_ofList]
      decide
    · intro key hkey hfield
      obtain ⟨f, hf, rfl⟩ := List.mem_map.mp hfield
      exact (hfields f hf).1.unreserved (structuralProperties_reserved owner script f.1 hkey)

theorem isVerbatim_layout {p : Piece} (h : p.IsAdmissible)
    (hshort : ∀ key ∈ p.keys, key.length ≤ 1024) : p.layout.IsVerbatim := by
  cases p with
  | object anchor name => exact isVerbatim_object h.2
  | transform anchor owner parent => exact isVerbatim_transform anchor owner parent
  | behavior anchor owner script fields =>
    obtain ⟨-, -, hscript, hnodup, hfields⟩ := h
    exact isVerbatim_behavior hscript hnodup fun f hf =>
      ⟨(hfields f hf).1, hshort f.1 (List.mem_map_of_mem hf)⟩

section Values

theorem value?_scalar {n : Int} (hn : Fits n) : (scalar n).value? ≠ none := by
  have hread := Yaml.Scalar.ofPlain?_of_spells (Text.spells_ofInt n) hn
  simp [scalar, Content.value?, Atom.value?_plain, hread]

theorem value?_reference {n : Int} (hn : Fits n) : (reference n).value? ≠ none := by
  obtain ⟨v, hv, -⟩ := (refers_reference n).referencedAnchor_eq hn
  simp [hv]

theorem value?_plain {t : Text} (ht : integer? t ≠ none) : (Atom.plain t).value? ≠ none := by
  intro hnone
  rw [Atom.value?_plain, Option.map_eq_none_iff] at hnone
  exact ht (Yaml.Scalar.ofPlain?_eq_none_iff.mp hnone)

theorem value?_script {g : Text} (hg : integer? g ≠ none) :
    (Content.flow (scriptEntries g)).value? ≠ none := by
  rw [NamesScript.flow.value?_eq]
  simpa using value?_plain hg

end Values

theorem exists_properties_layout {p : Piece} (h : p.IsAdmissible) :
    ∃ ps, p.layout.properties? = some ps := by
  refine Layout.exists_properties ?_
  cases p with
  | object anchor name =>
    simp only [layout, List.forall_mem_cons]
    exact ⟨value?_scalar (by decide), value?_scalar (by decide), value?_plain h.2.integer,
      value?_scalar (by decide), List.forall_mem_nil _⟩
  | transform anchor owner parent =>
    have hposition : (Content.flow [(['x'], .plain ['0']), (['y'], .plain ['0']),
        (['z'], .plain ['0'])]).value? ≠ none := by
      have hzero : (Atom.plain ['0']).value? = some (.scalar (.integer 0)) := by
        rw [Atom.value?_plain, show Yaml.Scalar.ofPlain? ['0'] = some (.integer 0) by decide]
        rfl
      simp [Content.value?, Yaml.atomPairs, hzero, Yaml.allEntries]
    simp only [layout, List.forall_mem_cons]
    exact ⟨value?_scalar (by decide), value?_reference h.2.1, hposition, Option.some_ne_none _,
      value?_reference h.2.2, List.forall_mem_nil _⟩
  | behavior anchor owner script fields =>
    obtain ⟨-, howner, hscript, -, hfields⟩ := h
    intro p hp
    rcases List.mem_append.mp hp with hp | hp
    · have hvalues : ∀ p ∈ structuralProperties owner script, p.2.value? ≠ none := by
        simp only [structuralProperties, List.forall_mem_cons]
        exact ⟨value?_scalar (by decide), value?_reference (by decide),
          value?_reference (by decide), value?_reference (by decide), value?_reference howner,
          value?_scalar (by decide), value?_scalar (by decide), value?_script hscript.integer,
          Option.some_ne_none _, Option.some_ne_none _, List.forall_mem_nil _⟩
      exact hvalues p hp
    · obtain ⟨f, hf, rfl⟩ := List.mem_map.mp hp
      exact value?_scalar (hfields f hf).2

theorem filter_keys {anchor owner : Int} {script : Text} {fields : List (Text × Int)}
    (hfields : ∀ f ∈ fields, IsFieldKey f.1) :
    (((behavior anchor owner script fields).layout.properties.map Prod.fst).filter fun key =>
      !UsageConfig.default.reservedFields.contains key) = fields.map Prod.fst := by
  have hkeys : (behavior anchor owner script fields).layout.properties.map Prod.fst =
      (structuralProperties owner script).map Prod.fst ++ fields.map Prod.fst := by
    simp [layout]
  have hstructural : ((structuralProperties owner script).map Prod.fst).filter (fun key =>
      !UsageConfig.default.reservedFields.contains key) = [] := by
    refine List.filter_eq_nil_iff.mpr fun key hkey => ?_
    simpa using structuralProperties_reserved owner script key hkey
  have hserialized : (fields.map Prod.fst).filter (fun key =>
      !UsageConfig.default.reservedFields.contains key) = fields.map Prod.fst := by
    refine List.filter_eq_self.mpr fun key hkey => ?_
    obtain ⟨f, hf, rfl⟩ := List.mem_map.mp hkey
    simpa using (hfields f hf).unreserved
  rw [hkeys, List.filter_append, hstructural, hserialized, List.nil_append]

/-- The block of an entity stands for this entity. -/
theorem reading_layout {p : Piece} (h : p.IsAdmissible)
    (hshort : ∀ key ∈ p.keys, key.length ≤ 1024) :
    ∃ b, p.layout.reading UsageConfig.default.reservedFields = .block b (some p.entity) := by
  have hverbatim := isVerbatim_layout h hshort
  obtain ⟨ps, hps⟩ := exists_properties_layout h
  refine ⟨p.layout.block ps, ?_⟩
  rw [Layout.reading, hps]
  refine congrArg (Reading.block (p.layout.block ps)) ?_
  cases p with
  | object anchor name =>
    obtain ⟨hanchor, hname⟩ := h
    rw [Layout.ofBlock?_object (Text.spells_ofInt anchor) hanchor rfl,
      Layout.objectName_eq hverbatim hps (by simp [layout]) hname.integer]
    rfl
  | transform anchor owner parent =>
    obtain ⟨hanchor, howner, hparent⟩ := h
    rw [Layout.ofBlock?_transform (Text.spells_ofInt anchor) hanchor rfl,
      Layout.reference_eq hverbatim hps (by simp [layout]) (refers_reference owner) howner,
      Layout.reference_eq hverbatim hps (by simp [layout]) (refers_reference parent) hparent]
    rfl
  | behavior anchor owner script fields =>
    obtain ⟨hanchor, howner, hscript, hnodup, hfields⟩ := h
    have hquiet : ∀ x ∈ script, Yaml.isQuiet x = true := fun x hx =>
      Yaml.isQuiet_of_isWordChar (isWordChar_of_isScriptIdentifier hscript x hx)
    have hread := Layout.scriptIdentifier_eq hverbatim hps
      (show ("m_Script".toList, _) ∈ _ by simp [layout, structuralProperties]) .flow
      (isPlain_of_isScriptIdentifier hscript) hquiet hscript.integer
    rw [Layout.ofBlock?_behavior (Text.spells_ofInt anchor) hanchor rfl, hread,
      Layout.serializedFields_eq hps, filter_keys fun f hf => (hfields f hf).1]
    rfl

end Piece

/-- The scene of entities. -/
def sceneText (pieces : List Piece) : Text :=
  preamble ++ (pieces.map Piece.text).flatten

theorem parse_preamble_append {reserved : List Text} {blocks : List Text}
    (h : ∀ b ∈ blocks, IsBlock b) :
    parse reserved (preamble ++ blocks.flatten) = parse reserved blocks.flatten := by
  have hfront : (RawBlock.cut (Text.lines blocks.flatten)).1 = [] := by
    rcases blocks with _ | ⟨b, blocks⟩
    · rfl
    · obtain ⟨r, hr⟩ := Text.startsWith_iff.mp (h b List.mem_cons_self).header
      refine RawBlock.cut_header (Text.startsWith_iff.mpr ⟨r ++ blocks.flatten, ?_⟩)
      rw [List.flatten_cons, hr, List.append_assoc]
  have hsplit : RawBlock.split preamble = [] := by decide
  rw [parse, RawBlock.split_append_of_cut (Text.ended_of_getLast? (by decide)) hfront, hsplit]
  rfl

/-- Entities that are written to a scene are read back as they are, in the same order, if the keys
of serialized fields are no longer than keys may be. -/
theorem parse_sceneText (pieces : List Piece) (h : ∀ p ∈ pieces, p.IsAdmissible)
    (hshort : ∀ p ∈ pieces, ∀ key ∈ p.keys, key.length ≤ 1024) :
    (parse UsageConfig.default.reservedFields (sceneText pieces)).malformed = 0 ∧
      (parse UsageConfig.default.reservedFields (sceneText pieces)).entities =
        pieces.map Piece.entity := by
  have htexts : pieces.map Piece.text = (pieces.map Piece.layout).map Layout.text := by
    rw [List.map_map]
    exact List.map_congr_left fun p _ => (Piece.text_layout p).symm
  have hverbatim : ∀ l ∈ pieces.map Piece.layout, l.IsVerbatim := by
    intro l hl
    obtain ⟨p, hp, rfl⟩ := List.mem_map.mp hl
    exact Piece.isVerbatim_layout (h p hp) (hshort p hp)
  have hblocks : ∀ b ∈ (pieces.map Piece.layout).map Layout.text, IsBlock b := by
    intro b hb
    obtain ⟨l, -, rfl⟩ := List.mem_map.mp hb
    exact Layout.isBlock_text
  rw [sceneText, htexts, parse_preamble_append hblocks, Layout.parse_texts _ hverbatim,
    List.map_map]
  clear htexts hverbatim hblocks
  induction pieces with
  | nil => exact ⟨rfl, rfl⟩
  | cons p pieces ih =>
    obtain ⟨hp, hmore⟩ := List.forall_mem_cons.mp h
    obtain ⟨hkeys, hshorts⟩ := List.forall_mem_cons.mp hshort
    obtain ⟨b, hb⟩ := Piece.reading_layout hp hkeys
    obtain ⟨hmalformed, hentities⟩ := ih hmore hshorts
    simp only [ofReadings, List.map_cons, Function.comp_apply, hb] at hmalformed hentities ⊢
    exact ⟨by simpa [Reading.isMalformed] using hmalformed,
      by simpa [Reading.entity?] using hentities⟩

/-- Names and an identifier that look like other things than texts. -/
theorem parse_sceneText_of_lookalikes :
    let pieces : List Piece := [.object 100 "1.50".toList, .object (-7) "null".toList,
      .object 3 "Main Camera.01".toList, .transform 400 100 0,
      .behavior 500 100 "00120".toList [("speed".toList, 5), ("_n".toList, -1)]]
    (∀ p ∈ pieces, p.IsAdmissible) ∧ (∀ p ∈ pieces, ∀ key ∈ p.keys, key.length ≤ 1024) ∧
      (parse UsageConfig.default.reservedFields (sceneText pieces)).malformed = 0 ∧
      (parse UsageConfig.default.reservedFields (sceneText pieces)).entities =
        [.object ⟨"100".toList, "1.50".toList⟩, .object ⟨"-7".toList, "null".toList⟩,
          .object ⟨['3'], "Main Camera.01".toList⟩,
          .transform ⟨"400".toList, "100".toList, ['0']⟩,
          .behavior ⟨"500".toList, "00120".toList, ["speed".toList, "_n".toList]⟩] := by
  intro pieces
  have hadmissible : ∀ p ∈ pieces, p.IsAdmissible := by decide +kernel
  have hshort : ∀ p ∈ pieces, ∀ key ∈ p.keys, key.length ≤ 1024 := by decide
  obtain ⟨hmalformed, hentities⟩ := parse_sceneText pieces hadmissible hshort
  exact ⟨hadmissible, hshort, hmalformed, hentities.trans (by decide)⟩

/-- A key of more characters than a key may have makes its block malformed. -/
theorem not_parse_sceneText_of_long_key :
    ¬ ∀ pieces : List Piece, (∀ p ∈ pieces, p.IsAdmissible) →
      (parse UsageConfig.default.reservedFields (sceneText pieces)).malformed = 0 ∧
        (parse UsageConfig.default.reservedFields (sceneText pieces)).entities =
          pieces.map Piece.entity := by
  intro h
  let pieces : List Piece := [.behavior 500 100 "abc123".toList [(List.replicate 1025 'a', 5)]]
  have hadmissible : ∀ p ∈ pieces, p.IsAdmissible := by decide +kernel
  have hmalformed :
      (parse UsageConfig.default.reservedFields (sceneText pieces)).malformed = 1 := by
    generalize htext : sceneText pieces = text
    simp only [pieces, sceneText, List.map_cons, List.map_nil, Piece.text, Piece.lines,
      Piece.referenceLine, Piece.fieldLine, -List.reduceReplicate] at htext
    repeat rw [String.toList_ofList] at htext
    subst htext
    decide +kernel
  rw [(h pieces hadmissible).1] at hmalformed
  contradiction

end SceneAudit.Scene
