import SceneAudit.Proofs.Registry.Basic
import SceneAudit.Proofs.Scene.Entities
import SceneAudit.Proofs.Text.Basic

/-! # Identifiers of scripts

An identifier is a word of hexadecimal digits. A sidecar gives it back as it is written, and so does
a block of a behavior, unless the identifier has the form of an integer between 64 and 128 bits,
which makes the block malformed.
-/

namespace SceneAudit

open Scene
open Yaml (Atom)
open Yaml.Scalar (integer? unboundedInteger?)

namespace Identifier

def isHexDigit (c : Char) : Bool :=
  Text.isDigit c || (97 ≤ c.toNat && c.toNat ≤ 102)

/-- A word of hexadecimal digits. -/
structure IsHex (t : Text) : Prop where
  chars : ∀ c ∈ t, isHexDigit c = true
  nonempty : t ≠ []

instance : DecidablePred IsHex := fun t =>
  decidable_of_iff ((∀ c ∈ t, isHexDigit c = true) ∧ t ≠ [])
    ⟨fun h => ⟨h.1, h.2⟩, fun h => ⟨h.1, h.2⟩⟩

/-- The word has the form of an integer beyond 64 bits that 128 bits hold. -/
def IsOversized (t : Text) : Prop :=
  ∃ n : Int, unboundedInteger? t = some n ∧ Int.pow 2 64 ≤ n ∧ n < Int.pow 2 128

section Hex

variable {g : Text} (hg : IsHex g)

include hg

theorem IsHex.isWordChar : ∀ c ∈ g, Yaml.isWordChar c = true := by
  intro c hc
  have hchar := hg.chars c hc
  simp only [isHexDigit, Bool.or_eq_true, Bool.and_eq_true, decide_eq_true_eq] at hchar
  rcases hchar with hdigit | hletter
  · simp [Yaml.isWordChar, hdigit]
  · refine Yaml.isWordChar_iff.mpr ?_
    omega

theorem IsHex.isQuiet : ∀ c ∈ g, Yaml.isQuiet c = true := fun c hc =>
  Yaml.isQuiet_of_isWordChar (hg.isWordChar c hc)

theorem IsHex.isPlain : Yaml.IsPlain g := by
  refine Yaml.isPlain_of_isWordChar hg.isWordChar hg.nonempty ?_
  rintro rfl
  exact absurd (hg.chars '-' List.mem_cons_self) (by decide)

theorem IsHex.nonneg {n : Int} (hn : unboundedInteger? g = some n) : 0 ≤ n := by
  have hhead : g.head? ≠ some '-' := fun hhead =>
    absurd (hg.chars '-' (List.mem_of_mem_head? hhead)) (by decide)
  rw [unboundedInteger?] at hn
  split at hn
  · contradiction
  · simp only at hn
    split at hn
    · contradiction
    · obtain rfl := Option.some.inj hn
      exact Int.natCast_nonneg _

theorem IsHex.integer?_eq_none_iff : integer? g = none ↔ IsOversized g := by
  have hpow : 0 < Int.pow 2 63 ∧ 0 < Int.pow 2 127 ∧ Int.pow 2 64 < Int.pow 2 128 := by decide
  rw [integer?, IsOversized]
  cases hinteger : unboundedInteger? g with
  | none => simp
  | some n =>
    have hnonneg := hg.nonneg hinteger
    have hfits : Yaml.Scalar.fits64 n = true ↔ n < Int.pow 2 64 := by
      simp only [Yaml.Scalar.fits64, Bool.and_eq_true, decide_eq_true_eq]
      omega
    have hfits' : Yaml.Scalar.fits128 n = true ↔ n < Int.pow 2 128 := by
      simp only [Yaml.Scalar.fits128, Bool.and_eq_true, decide_eq_true_eq]
      omega
    simp only [Option.some.injEq, exists_eq_left', hfits, hfits']
    split
    · rw [iff_false_left (Option.some_ne_none _)]
      omega
    · split
      · rw [iff_true_left rfl]
        omega
      · rw [iff_false_left (Option.some_ne_none _)]
        omega

end Hex

section Sidecar

variable {g : Text} (hg : IsHex g)

include hg

theorem IsHex.isToken : IsToken g := by
  intro c hc
  have hquiet := hg.isQuiet c hc
  exact ⟨Yaml.isBlank_of_isQuiet hquiet, Yaml.ne_hash_of_isQuiet hquiet⟩

theorem IsHex.carries {tail : Text} (htail : tail = [] ∨ tail = ['\r']) :
    Carries ("guid: ".toList ++ (g ++ tail)) g := by
  have hindent : IsGapText [] := by simp [IsGapText]
  have hgap : IsGapText [' '] := by simp [IsGapText]
  refine .intro hindent hgap hg.isToken hg.nonempty ?_
  rcases htail with rfl | rfl
  · simp
  · rintro c ⟨⟩
    exact .inl rfl

theorem scan?_eq {text : Text} {before after : List Text} {tail : Text}
    (htext : Text.splitOn '\n' text = before ++ ("guid: ".toList ++ (g ++ tail)) :: after)
    (htail : tail = [] ∨ tail = ['\r']) (hbefore : ∀ line ∈ before, ofLine? line = none) :
    scan? text = some g := by
  rw [scan?, htext, List.findSome?_append, List.findSome?_eq_none_iff.mpr hbefore,
    List.findSome?_cons, (hg.carries htail).ofLine?_eq]
  rfl

end Sidecar

end Identifier

namespace Registry

theorem lookup_insert (registry : Registry) (identifier location : Text) :
    (registry.insert identifier location).lookup identifier = some location := by
  simp [lookup, insert]

end Registry

/-- A block of a behavior whose script has an identifier, beside properties that can be read. -/
structure Scene.Layout.NamesBehavior (l : Layout) (identifier : Text) : Prop where
  verbatim : l.IsVerbatim
  kind : BlockKind.ofName l.name = .behavior
  script : ∃ c, ("m_Script".toList, c) ∈ l.properties ∧ NamesScript identifier c
  others : ∀ p ∈ l.properties, p.1 ≠ "m_Script".toList → p.2.value? ≠ none

namespace Scene.Layout.NamesBehavior

variable {l : Layout} {g : Text} (h : l.NamesBehavior g) (hg : Identifier.IsHex g)

include h hg

theorem properties?_eq_none_iff : l.properties? = none ↔ Identifier.IsOversized g := by
  obtain ⟨c, hmem, hc⟩ := h.script
  have hvalue : c.value? = none ↔ integer? g = none := by
    rw [hc.value?_eq, Option.map_eq_none_iff, Atom.value?_plain, Option.map_eq_none_iff,
      Yaml.Scalar.ofPlain?_eq_none_iff]
  rw [← hg.integer?_eq_none_iff, ← hvalue, properties?, Yaml.allEntries_eq_none_iff]
  constructor
  · rintro ⟨e, he, hnone⟩
    obtain ⟨p, hp, rfl⟩ := List.mem_map.mp he
    by_cases hkey : p.1 = "m_Script".toList
    · obtain rfl : p = ("m_Script".toList, c) :=
        List.inj_on_of_nodup_map h.verbatim.nodup hp hmem hkey
      exact hnone
    · exact absurd hnone (h.others p hp hkey)
  · intro hnone
    exact ⟨_, List.mem_map_of_mem hmem, hnone⟩

theorem reading_eq (reserved : List Text) :
    (¬Identifier.IsOversized g → ∃ block b,
      (RawBlock.split l.text).map (Reading.ofRaw reserved) = [.block block (some (.behavior b))] ∧
        b.script = g) ∧
    (Identifier.IsOversized g →
      (RawBlock.split l.text).map (Reading.ofRaw reserved) = [.malformed]) := by
  rw [readings_text h.verbatim, ← properties?_eq_none_iff h hg, reading]
  obtain ⟨c, hmem, hc⟩ := h.script
  constructor
  · intro hsome
    obtain ⟨ps, hps⟩ := Option.ne_none_iff_exists'.mp hsome
    have hinteger : integer? g ≠ none := fun hnone =>
      hsome ((properties?_eq_none_iff h hg).mpr (hg.integer?_eq_none_iff.mp hnone))
    refine ⟨l.block ps, ⟨canonicalAnchor l.anchor, g, Entity.serializedFields reserved ps⟩, ?_, rfl⟩
    have hkind : (l.block ps).kind = .behavior := h.kind
    have hscript := scriptIdentifier_eq h.verbatim hps hmem hc hg.isPlain hg.isQuiet hinteger
    simp only [hps, Entity.ofBlock?, hkind, hscript]
    rfl
  · intro hnone
    rw [hnone]

end Scene.Layout.NamesBehavior

/-- An identifier is read as it is written from a sidecar and from a block, so that a behavior finds
the script that is registered with it; only an oversized one makes the block malformed. -/
theorem identifiers_verbatim (reserved : List Text) (g : Text) (hg : Identifier.IsHex g) :
    (∀ l : Layout, l.NamesBehavior g →
      (¬Identifier.IsOversized g → ∃ block b,
        (RawBlock.split l.text).map (Reading.ofRaw reserved) = [.block block (some (.behavior b))] ∧
          b.script = g) ∧
      (Identifier.IsOversized g →
        (RawBlock.split l.text).map (Reading.ofRaw reserved) = [.malformed])) ∧
    (∀ (text tail : Text) (before after : List Text),
      Text.splitOn '\n' text = before ++ ("guid: ".toList ++ (g ++ tail)) :: after →
      (tail = [] ∨ tail = ['\r']) → (∀ line ∈ before, Identifier.ofLine? line = none) →
      Identifier.scan? text = some g ∧
      ∀ (registry : Registry) (artifact : Text) (bytes : Bytes), Utf8.decode? bytes = some text →
        (registry.register artifact (some bytes)).2 = some g ∧
        (registry.register artifact (some bytes)).1.lookup g = some artifact) := by
  refine ⟨fun l h => h.reading_eq hg reserved, ?_⟩
  intro text tail before after htext htail hbefore
  have hscan := Identifier.scan?_eq hg htext htail hbefore
  refine ⟨hscan, fun registry artifact bytes hbytes => ?_⟩
  have hsidecar : Registry.sidecarIdentifier? (some bytes) = some g := by
    rw [Registry.sidecarIdentifier?, Option.bind_some, hbytes, Option.bind_some, hscan]
  simp only [Registry.register, hsidecar]
  exact ⟨trivial, Registry.lookup_insert registry g artifact⟩

/-- An identifier that looks like a number, in block style and in a sidecar of lines with carriage
returns. -/
theorem identifiers_verbatim_of_numeral :
    let g := "1e5".toList
    let l : Layout := ⟨"114".toList, ['5'], "MonoBehaviour".toList,
      [("m_Enabled".toList, .atom (.plain ['1'])),
        ("m_Script".toList, .nested 4 (scriptEntries g))]⟩
    let sidecar := "fileFormatVersion: 2\r\nguid: 1e5\r\n".toList
    Identifier.IsHex g ∧ ¬Identifier.IsOversized g ∧
      (∃ block b,
        (RawBlock.split l.text).map (Reading.ofRaw []) = [.block block (some (.behavior b))] ∧
          b.script = g) ∧
      (Registry.empty.register "Mover.cs".toList (some (Utf8.encode sidecar))).1.lookup g =
        some "Mover.cs".toList := by
  repeat rw [String.toList_ofList]
  intro g l sidecar
  have hg : Identifier.IsHex g := by decide
  have hsmall : ¬Identifier.IsOversized g := by
    rw [← hg.integer?_eq_none_iff]
    decide
  have hnames : l.NamesBehavior g := by
    have hothers : ∀ p ∈ l.properties, p.1 ≠ "m_Script".toList → p.2.value?.isSome = true := by
      decide
    exact ⟨by decide +kernel, by decide, ⟨_, by decide, .nested 4⟩, fun p hp hkey =>
      Option.isSome_iff_ne_none.mp (hothers p hp hkey)⟩
  obtain ⟨hread, hsidecar⟩ := identifiers_verbatim [] g hg
  obtain ⟨-, hregister⟩ := hsidecar sidecar ['\r'] ["fileFormatVersion: 2\r".toList] [[]]
    (by decide) (Or.inr rfl) (by decide)
  exact ⟨hg, hsmall, (hread l hnames).1 hsmall, (hregister .empty _ _ (by decide +kernel)).2⟩

/-- An identifier of 32 decimal digits is no identifier to a block. -/
theorem not_identifiers_verbatim_of_digits :
    ¬ ∀ g : Text, Identifier.IsHex g →
      ∃ b ∈ (parse [] ("--- !u!114 &4\nMonoBehaviour:\n  m_Script: ".toList ++
        ("\x7bfileID: 11500000, guid: ".toList ++ (g ++ ", type: 3\x7d\n".toList)))).behaviors,
          b.script = g := by
  intro h
  obtain ⟨b, hb, -⟩ := h "12345678901234567890123456789012".toList (by decide)
  have hnone : (parse [] ("--- !u!114 &4\nMonoBehaviour:\n  m_Script: ".toList ++
      ("\x7bfileID: 11500000, guid: ".toList ++
        ("12345678901234567890123456789012".toList ++ ", type: 3\x7d\n".toList)))).behaviors =
          [] := by
    repeat rw [String.toList_ofList]
    decide +kernel
  rw [hnone] at hb
  contradiction

end SceneAudit
