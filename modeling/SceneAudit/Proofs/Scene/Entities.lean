import SceneAudit.Proofs.Lookup
import SceneAudit.Proofs.Scene.Layout
import SceneAudit.Proofs.Yaml.Scalars

/-! # Entities of blocks

What a block stands for depends on a few of its properties: the name of an object, the references of
a transform and the script of a behavior. A reference may be spelled in any way, plain or between
quotes; names and identifiers of scripts are read as they are written.
-/

namespace SceneAudit

namespace Yaml

open Text (Spells)

variable {entries : List (Text × Option Value)} {es : List (Value × Value)}

@[simp] theorem string?_string (t : Text) : (Value.string t).string? = some t :=
  rfl

theorem lookup_allEntries (h : allEntries entries = some es) (key : Text) :
    Value.lookup key es = (entries.lookup key).join := by
  induction entries generalizing es with
  | nil =>
    obtain rfl := Option.some.inj h
    rfl
  | cons e entries ih =>
    obtain ⟨k, _ | value⟩ := e
    · contradiction
    · obtain ⟨rest, hrest, rfl⟩ := Option.map_eq_some_iff.mp h
      have hmore := ih hrest
      rw [Value.lookup] at hmore ⊢
      by_cases hk : k = key
      · simp [hk]
      · have hk' : (key == k) = false := beq_eq_false_iff_ne.mpr (Ne.symm hk)
        simp [hk, hk', hmore, List.lookup_cons]

theorem keys_allEntries (h : allEntries entries = some es) :
    (es.filterMap fun e => e.1.asString?) = entries.map Prod.fst := by
  induction entries generalizing es with
  | nil =>
    obtain rfl := Option.some.inj h
    rfl
  | cons e entries ih =>
    obtain ⟨k, _ | value⟩ := e
    · contradiction
    · obtain ⟨rest, hrest, rfl⟩ := Option.map_eq_some_iff.mp h
      rw [List.filterMap_cons, ih hrest]
      rfl

section Spelled

variable {s : Text} {n : Int} (h : Spells s n)

include h

theorem isWordChar_of_spells : ∀ c ∈ s, isWordChar c = true := by
  intro c hc
  rcases h.mem hc with hdigit | rfl | rfl
  · simp [isWordChar, hdigit]
  · rfl
  · rfl

theorem isPlain_of_spells : IsPlain s := by
  refine isPlain_of_isWordChar (isWordChar_of_spells h) h.ne_nil ?_
  rintro rfl
  have hread := h.readInt?_eq
  rw [show Text.readInt? 10 ['-'] = none from rfl] at hread
  contradiction

end Spelled

def Atom.IsWritten (a : Atom) (t : Text) : Prop :=
  a = .plain t ∨ a = .single t ∨ a = .double t

instance (a : Atom) (t : Text) : Decidable (a.IsWritten t) :=
  inferInstanceAs (Decidable (a = .plain t ∨ a = .single t ∨ a = .double t))

end Yaml

namespace Scene

open Text (Spells)
open Yaml (Atom Value)

theorem isWord_of_spells {s : Text} {n : Int} (h : Spells s n) : Text.IsWord s := fun c hc =>
  Yaml.isBlank_of_isQuiet (Yaml.isQuiet_of_isWordChar (Yaml.isWordChar_of_spells h c hc))

theorem anchorOfId?_of_spells {a : Atom} {s : Text} {n : Int} (ha : a.IsWritten s) (h : Spells s n)
    (hn : Text.fitsSigned 64 n = true) :
    ∃ v, a.value? = some v ∧ anchorOfId? v = some (Text.ofInt n) := by
  have hstring : anchorOfId? (.scalar (.string s)) = some (Text.ofInt n) := by
    have hword : Text.IsWord s := isWord_of_spells h
    rw [anchorOfId?, hword.trim_eq, h.readInt64?_eq hn]
    rfl
  rcases ha with rfl | rfl | rfl
  · refine ⟨_, congrArg (Option.map Value.scalar) (Yaml.Scalar.ofPlain?_of_spells h hn), ?_⟩
    split
    · exact hstring
    · rfl
  · exact ⟨_, rfl, hstring⟩
  · exact ⟨_, rfl, hstring⟩

/-- A content that refers to an anchor: a mapping from `fileID` to a spelling of an integer. -/
inductive Refers (n : Int) : Content → Prop where
  | flow {s : Text} {a : Atom} (hs : Spells s n) (ha : a.IsWritten s) :
      Refers n (.flow [("fileID".toList, a)])
  | nested {s : Text} {a : Atom} (column : Nat) (hs : Spells s n) (ha : a.IsWritten s) :
      Refers n (.nested column [("fileID".toList, a)])

theorem isAtomic_reference {a : Atom} (ha : a.IsVerbatim) :
    Yaml.IsAtomic [("fileID".toList, a)] where
  flow := List.forall_mem_singleton.mpr ⟨(by decide : Yaml.IsKey "fileID".toList), ha⟩
  names := List.forall_mem_singleton.mpr (by decide : Yaml.IsName "fileID".toList)
  nodup := List.nodup_cons.mpr ⟨List.not_mem_nil, List.nodup_nil⟩

theorem Refers.referencedAnchor_eq {c : Content} {n : Int} (h : Refers n c)
    (hn : Text.fitsSigned 64 n = true) :
    ∃ v, c.value? = some v ∧ referencedAnchor (some v) = Text.ofInt n := by
  have hmapping : ∀ {s : Text} {a : Atom}, Spells s n → a.IsWritten s →
      ∃ v, (Yaml.allEntries (Yaml.atomPairs [("fileID".toList, a)])).map Value.mapping = some v ∧
        referencedAnchor (some v) = Text.ofInt n := by
    intro s a hs ha
    obtain ⟨v, hv, hanchor⟩ := anchorOfId?_of_spells ha hs hn
    refine ⟨.mapping [(.string "fileID".toList, v)], ?_, ?_⟩
    · simp [Yaml.atomPairs, hv, Yaml.allEntries]
    · have hget : Value.get? "fileID".toList (.mapping [(.string "fileID".toList, v)]) = some v :=
        rfl
      rw [referencedAnchor, Option.bind_some, hget, Option.bind_some, hanchor, Option.getD_some]
  cases h with
  | flow hs ha => exact hmapping hs ha
  | nested column hs ha => exact hmapping hs ha

section Plain

variable {t : Text}

theorem trim_of_isPlain (h : Yaml.IsPlain t) (n : Nat) :
    Text.trim (List.replicate n ' ' ++ t) = t := by
  refine Text.trim_replicate_append n ?_ ?_
  · intro c hc
    obtain ⟨d, u, rfl⟩ := List.exists_cons_of_ne_nil h.ne_nil
    obtain rfl : d = c := Option.some.inj hc
    exact Yaml.isBlank_of_isQuiet (Yaml.isQuiet_of_startsWord h.start)
  · intro c hc
    rcases h.chars c (List.mem_of_getLast? hc) with hquiet | rfl
    · exact Yaml.isBlank_of_isQuiet hquiet
    · exact absurd hc h.last

theorem writtenText?_of_isPlain (h : Yaml.IsPlain t) (ht : Yaml.Scalar.integer? t ≠ none) :
    writtenText? (Atom.plain t).value? (some t) = some t := by
  have htrim : Text.trim t = t := trim_of_isPlain h 0
  have hsome : Yaml.Scalar.ofPlain? t ≠ none := fun hnone =>
    ht (Yaml.Scalar.ofPlain?_eq_none_iff.mp hnone)
  obtain ⟨sc, hsc⟩ := Option.ne_none_iff_exists'.mp hsome
  rw [Atom.value?_plain, hsc, Option.map_some]
  cases sc with
  | string u => rw [writtenText?, Yaml.Scalar.eq_of_ofPlain?_string hsc]
  | _ => simp [writtenText?, htrim, h.ne_nil]

end Plain

section Script

def scriptEntries (identifier : Text) : List (Text × Atom) :=
  [("fileID".toList, .plain "11500000".toList), ("guid".toList, .plain identifier),
    ("type".toList, .plain ['3'])]

/-- A content that names the script with an identifier, on one line or on lines of their own. -/
inductive NamesScript (identifier : Text) : Content → Prop where
  | flow : NamesScript identifier (.flow (scriptEntries identifier))
  | nested (column : Nat) : NamesScript identifier (.nested column (scriptEntries identifier))

variable {g : Text}

theorem isAtomic_scriptEntries (hg : Yaml.IsPlain g) : Yaml.IsAtomic (scriptEntries g) where
  flow := by
    refine List.forall_mem_cons.mpr ⟨⟨by decide, ?_⟩, List.forall_mem_cons.mpr
      ⟨⟨(by decide : Yaml.IsKey "guid".toList), hg⟩, List.forall_mem_singleton.mpr ⟨by decide, ?_⟩⟩⟩
    · exact (by decide : Yaml.IsPlain "11500000".toList)
    · exact (by decide : Yaml.IsPlain ['3'])
  names := by
    have hnames : ∀ key ∈ (scriptEntries g).map Prod.fst, Yaml.IsName key := by
      show ∀ key ∈ ["fileID".toList, "guid".toList, "type".toList], Yaml.IsName key
      decide
    exact fun e he => hnames e.1 (List.mem_map_of_mem he)
  nodup := by
    show ["fileID".toList, "guid".toList, "type".toList].Nodup
    decide

theorem NamesScript.value?_eq {c : Content} (h : NamesScript g c) :
    c.value? = (Atom.plain g).value?.map fun v => .mapping
      [(.string "fileID".toList, .scalar (.integer 11500000)), (.string "guid".toList, v),
        (.string "type".toList, .scalar (.integer 3))] := by
  have hinteger : ∀ (t : Text) (n : Int), Yaml.Scalar.ofPlain? t = some (.integer n) →
      (Atom.plain t).value? = some (.scalar (.integer n)) := by
    intro t n ht
    rw [Atom.value?_plain, ht]
    rfl
  have hfile := hinteger "11500000".toList 11500000 (by decide)
  have htype := hinteger ['3'] 3 (by decide)
  have hentries : (Yaml.allEntries (Yaml.atomPairs (scriptEntries g))).map Value.mapping =
      (Atom.plain g).value?.map fun v => .mapping
        [(.string "fileID".toList, .scalar (.integer 11500000)), (.string "guid".toList, v),
          (.string "type".toList, .scalar (.integer 3))] := by
    simp only [scriptEntries, Yaml.atomPairs, List.map_cons, List.map_nil, hfile, htype]
    cases (Atom.plain g).value? <;> rfl
  cases h with
  | flow => exact hentries
  | nested column => exact hentries

variable (hg : ∀ c ∈ g, Yaml.isQuiet c = true) (hne : g ≠ [])

include hg hne

theorem identifierIn?_keyword {c : Char} {rest : Text} (hc : isIdentifierChar c = false) :
    identifierIn? ("guid: ".toList ++ (g ++ c :: rest)) = some g := by
  have hsign : ∀ x ∈ g, isIdentifierChar x = true := by
    intro x hx
    have hflow := Yaml.isFlowSign_of_isQuiet (hg x hx)
    have hblank := Yaml.isBlank_of_isQuiet (hg x hx)
    simp only [Yaml.isFlowSign, Bool.or_eq_false_iff, beq_eq_false_iff_ne] at hflow
    simp [isIdentifierChar, hflow, hblank]
  obtain ⟨x, u, rfl⟩ := List.exists_cons_of_ne_nil hne
  have hgap : (x == ' ' || x == '\t') = false := Yaml.isGap_of_isQuiet (hg x List.mem_cons_self)
  have hdrop : Text.dropStart? "guid:".toList ("guid: ".toList ++ (x :: u ++ c :: rest)) =
      some (' ' :: (x :: u ++ c :: rest)) := rfl
  have htake : (x :: u ++ c :: rest).takeWhile isIdentifierChar = x :: u := by
    apply Text.takeWhile_run hsign
    rintro d ⟨⟩
    exact hc
  have hat : identifierAt? ("guid: ".toList ++ (x :: u ++ c :: rest)) = some (x :: u) := by
    rw [List.cons_append] at htake
    rw [identifierAt?, hdrop]
    simp only [List.dropWhile_cons, hgap, List.cons_append, beq_self_eq_true, Bool.true_or, if_true,
      Bool.false_eq_true, if_false, htake]
  rw [show "guid: ".toList = 'g' :: "uid: ".toList from rfl, List.cons_append] at hat ⊢
  rw [identifierIn?, hat]

theorem identifierIn?_flow :
    identifierIn? (Content.flow (scriptEntries g)).writtenText = some g := by
  have htext : (Content.flow (scriptEntries g)).first = List.replicate 1 ' ' ++
      ("\x7bfileID: 11500000, ".toList ++ ("guid: ".toList ++ (g ++ ", type: 3\x7d".toList))) :=
    rfl
  have hlast : ("\x7bfileID: 11500000, ".toList ++ ("guid: ".toList ++
      (g ++ ", type: 3\x7d".toList))).getLast? = some '\x7d' := by
    iterate 3 rw [List.getLast?_append_of_ne_nil _ (by simp)]
    rfl
  have hskip : ∀ rest : Text, identifierIn? ("\x7bfileID: 11500000, ".toList ++ rest) =
      identifierIn? rest := by
    intro rest
    simp [identifierIn?, identifierAt?, Text.dropStart?]
  rw [Content.writtenText, htext, Text.trim_replicate_append 1 (by rintro c ⟨⟩; rfl)
    (by rw [hlast]; rintro c ⟨⟩; rfl), Content.more, List.flatMap_nil, List.append_nil, hskip]
  exact identifierIn?_keyword hg hne (by decide)

theorem identifierIn?_nested (column : Nat) :
    identifierIn? (Content.nested column (scriptEntries g)).writtenText = some g := by
  have hline : ∀ t : Text, (∀ c, t.head? = some c → Text.isBlank c = false) →
      (∀ c, t.getLast? = some c → Text.isBlank c = false) →
        Text.trim (List.replicate column ' ' ++ t) = t := fun _ => Text.trim_replicate_append column
  have hguid : Text.trim (Content.nestedLine column ("guid".toList, .plain g)) =
      "guid: ".toList ++ g := by
    refine hline ("guid: ".toList ++ g) (by rintro c ⟨⟩; rfl) fun c hc => ?_
    rw [List.getLast?_append_of_ne_nil _ hne] at hc
    exact Yaml.isBlank_of_isQuiet (hg c (List.mem_of_getLast? hc))
  have hfile : Text.trim (Content.nestedLine column ("fileID".toList, .plain "11500000".toList)) =
      "fileID: 11500000".toList := hline _ (by rintro c ⟨⟩; rfl) (by rintro c ⟨⟩; rfl)
  have htype : Text.trim (Content.nestedLine column ("type".toList, .plain ['3'])) =
      "type: 3".toList := hline _ (by rintro c ⟨⟩; rfl) (by rintro c ⟨⟩; rfl)
  have htext : (Content.nested column (scriptEntries g)).writtenText =
      "\nfileID: 11500000\n".toList ++ ("guid: ".toList ++ (g ++ "\ntype: 3".toList)) := by
    have hnil : Text.trim [] = [] := rfl
    simp only [Content.writtenText, Content.first, Content.more, scriptEntries, List.map_cons,
      List.map_nil, List.flatMap_cons, List.flatMap_nil, hfile, hguid, htype, hnil]
    simp
  have hskip : ∀ rest : Text, identifierIn? ("\nfileID: 11500000\n".toList ++ rest) =
      identifierIn? rest := by
    intro rest
    simp [identifierIn?, identifierAt?, Text.dropStart?]
  rw [htext, hskip]
  exact identifierIn?_keyword hg hne (by decide)

theorem NamesScript.identifierIn?_eq {c : Content} (h : NamesScript g c) :
    identifierIn? c.writtenText = some g := by
  cases h with
  | flow => exact identifierIn?_flow hg hne
  | nested column => exact identifierIn?_nested hg hne column

end Script

namespace Layout

theorem exists_properties {l : Layout} (h : ∀ p ∈ l.properties, p.2.value? ≠ none) :
    ∃ ps, l.properties? = some ps := by
  refine Option.ne_none_iff_exists'.mp fun hnone => ?_
  obtain ⟨e, he, hvalue⟩ := Yaml.allEntries_eq_none_iff.mp hnone
  obtain ⟨p, hp, rfl⟩ := List.mem_map.mp he
  exact h p hp hvalue

variable {l : Layout} (h : l.IsVerbatim) {ps : List (Value × Value)} (hps : l.properties? = some ps)

include h hps

theorem lookup_properties {key : Text} {c : Content} (hmem : (key, c) ∈ l.properties) :
    Value.lookup key ps = c.value? := by
  have hnodup : ((l.properties.map fun p => (p.1, p.2.value?)).map Prod.fst).Nodup := by
    rw [List.map_map]
    exact h.nodup
  have hpair : (key, c.value?) ∈ l.properties.map fun p => (p.1, p.2.value?) :=
    List.mem_map.mpr ⟨(key, c), hmem, rfl⟩
  rw [Yaml.lookup_allEntries hps, (Lookup.lookup_eq_some_iff hnodup).mpr hpair]
  rfl

theorem reference_eq {key : String} {c : Content} {n : Int} (hmem : (key.toList, c) ∈ l.properties)
    (hc : Refers n c) (hn : Text.fitsSigned 64 n = true) :
    Entity.reference (l.block ps) key = Text.ofInt n := by
  obtain ⟨v, hv, href⟩ := hc.referencedAnchor_eq hn
  rw [Entity.reference, block, lookup_properties h hps hmem, hv, href]

theorem objectName_eq {t : Text} (hmem : ("m_Name".toList, .atom (.plain t)) ∈ l.properties)
    (ht : Yaml.Scalar.integer? t ≠ none) : Entity.objectName (l.block ps) l.body = t := by
  have hplain : Yaml.IsPlain t := h.contents _ hmem
  have hwritten : (Content.atom (.plain t)).writtenText = t := by
    rw [Content.writtenText, Content.first, Content.more, List.flatMap_nil, List.append_nil]
    exact trim_of_isPlain hplain 1
  have hline : Text.IsLine t := isLine_of_isInline (.of_quiet hplain.chars)
  have hvalue : Value.lookup "m_Name".toList ps = (Atom.plain t).value? :=
    lookup_properties h hps hmem
  rw [Entity.objectName, block, hvalue, propertyText?_body h hmem, hwritten, Option.bind_some,
    Text.lines_eq_self hline hplain.ne_nil]
  simp only [List.head?_cons, writtenText?_of_isPlain hplain ht, Option.getD_some]

theorem scriptIdentifier_eq {g : Text} {c : Content} (hmem : ("m_Script".toList, c) ∈ l.properties)
    (hc : NamesScript g c) (hplain : Yaml.IsPlain g) (hg : ∀ x ∈ g, Yaml.isQuiet x = true)
    (hsome : Yaml.Scalar.integer? g ≠ none) :
    Entity.scriptIdentifier (l.block ps) l.body = g := by
  have htyped : (Value.lookup "m_Script".toList ps).bind (Value.get? "guid".toList) =
      (Atom.plain g).value? := by
    rw [lookup_properties h hps hmem, hc.value?_eq]
    cases (Atom.plain g).value? <;> rfl
  rw [Entity.scriptIdentifier, block, htyped, propertyText?_body h hmem, Option.bind_some,
    hc.identifierIn?_eq hg hplain.ne_nil]
  simp only [writtenText?_of_isPlain hplain hsome, Option.getD_some]

omit h in
theorem serializedFields_eq (reserved : List Text) :
    Entity.serializedFields reserved ps =
      (l.properties.map Prod.fst).filter fun key => !reserved.contains key := by
  rw [Entity.serializedFields, Yaml.keys_allEntries hps, List.map_map]
  rfl

section Kinds

variable {reserved : List Text} {n : Int} (hs : Spells l.anchor n)
  (hn : Text.fitsSigned 64 n = true)

omit h hps

include hs hn

theorem ofBlock?_object (hkind : BlockKind.ofName l.name = .object) (body : Text) :
    Entity.ofBlock? reserved (l.block ps) body =
      some (.object ⟨Text.ofInt n, Entity.objectName (l.block ps) body⟩) := by
  rw [Entity.ofBlock?, block, hkind, canonicalAnchor_of_spells hs hn]

theorem ofBlock?_transform (hkind : BlockKind.ofName l.name = .transform) (body : Text) :
    Entity.ofBlock? reserved (l.block ps) body =
      some (.transform ⟨Text.ofInt n, Entity.reference (l.block ps) "m_GameObject",
        Entity.reference (l.block ps) "m_Father"⟩) := by
  rw [Entity.ofBlock?, block, hkind, canonicalAnchor_of_spells hs hn]

theorem ofBlock?_behavior (hkind : BlockKind.ofName l.name = .behavior) (body : Text) :
    Entity.ofBlock? reserved (l.block ps) body =
      some (.behavior ⟨Text.ofInt n, Entity.scriptIdentifier (l.block ps) body,
        Entity.serializedFields reserved ps⟩) := by
  rw [Entity.ofBlock?, block, hkind, canonicalAnchor_of_spells hs hn]

end Kinds

end Layout

end Scene

end SceneAudit
