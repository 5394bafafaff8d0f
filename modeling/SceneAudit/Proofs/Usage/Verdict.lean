import Mathlib.Data.List.Basic
import SceneAudit.Proofs.Files.Locate
import SceneAudit.Usage.Resolver

/-! # The strict verdict on a component

A component fails its script only for members that the script's primary type declares: the verdict
goes by the types of the script in source order, their bases, and the members of one of them.
-/

namespace SceneAudit

namespace Script.Declaration

/-- A base of the type is among the recognized ones, in exactly this spelling. -/
def IsRecognized (baseTypes : List Text) (d : Declaration) : Prop :=
  ∃ b ∈ d.bases, b ∈ baseTypes

/-- Which of the types of a script is the primary one. -/
inductive PrimaryAt (baseTypes : List Text) (types : List Declaration) : Nat → Prop where
  /-- The first type with a recognized base. -/
  | recognized {i : Nat} {d : Declaration} (hd : types[i]? = some d)
      (h : d.IsRecognized baseTypes)
      (hfirst : ∀ (j : Nat) (e : Declaration), j < i → types[j]? = some e →
        ¬ e.IsRecognized baseTypes) :
      PrimaryAt baseTypes types i
  /-- The first type, if no type has a recognized base. -/
  | first (hne : types ≠ []) (h : ∀ d ∈ types, ¬ d.IsRecognized baseTypes) :
      PrimaryAt baseTypes types 0

/-- A field or property of the type has this name. -/
def Declares (d : Declaration) (name : Text) : Prop :=
  name ∈ d.fields ∨ name ∈ d.properties

/-- The type has members, and no serialized field matches one of them. -/
def IsMissed (fields : List Text) (d : Declaration) : Prop :=
  (d.fields ≠ [] ∨ d.properties ≠ []) ∧ ∀ f ∈ fields, ∀ x, d.Declares x →
    MemberName.normalize f ≠ MemberName.normalize x

section Primary

variable {baseTypes : List Text} {types types' : List Declaration} {d d' : Declaration} {i : Nat}

theorem derivesFromAny_iff : d.derivesFromAny baseTypes = true ↔ d.IsRecognized baseTypes := by
  simp only [derivesFromAny, List.any_eq_true, List.contains_iff_mem, IsRecognized]

theorem find?_derivesFromAny_iff :
    types.find? (fun d => d.derivesFromAny baseTypes) = some d ↔ ∃ i, types[i]? = some d ∧
      d.IsRecognized baseTypes ∧
      ∀ (j : Nat) (e : Declaration), j < i → types[j]? = some e →
        ¬ e.IsRecognized baseTypes := by
  rw [List.find?_eq_some_iff_getElem, derivesFromAny_iff]
  constructor
  · rintro ⟨hd, i, hlt, hi, hfirst⟩
    refine ⟨i, List.getElem?_eq_some_iff.mpr ⟨hlt, hi⟩, hd, fun j e hj he hrecognized => ?_⟩
    obtain ⟨hj', rfl⟩ := List.getElem?_eq_some_iff.mp he
    have hnot := hfirst j hj
    rw [derivesFromAny_iff.mpr hrecognized] at hnot
    contradiction
  · rintro ⟨i, hi, hd, hfirst⟩
    obtain ⟨hlt, hi⟩ := List.getElem?_eq_some_iff.mp hi
    refine ⟨hd, i, hlt, hi, fun j hj => ?_⟩
    have hnot := hfirst j types[j] hj (List.getElem?_eq_getElem (Nat.lt_trans hj hlt))
    rw [← derivesFromAny_iff, Bool.not_eq_true] at hnot
    rw [hnot, Bool.not_false]

theorem find?_derivesFromAny_eq_none_iff :
    types.find? (fun d => d.derivesFromAny baseTypes) = none ↔
      ∀ d ∈ types, ¬ d.IsRecognized baseTypes := by
  simp only [List.find?_eq_none, derivesFromAny_iff]

theorem primary?_eq_some_iff : primary? baseTypes types = some d ↔
    ∃ i, PrimaryAt baseTypes types i ∧ types[i]? = some d := by
  unfold primary?
  split
  · rename_i e hfind
    obtain ⟨i, hi, he, hfirst⟩ := find?_derivesFromAny_iff.mp hfind
    constructor
    · intro h
      obtain rfl := Option.some.inj h
      exact ⟨i, .recognized hi he hfirst, hi⟩
    · rintro ⟨j, hj, hd⟩
      refine hfind.symm.trans ?_
      cases hj with
      | recognized hj hrecognized hfirst' =>
        obtain rfl := Option.some.inj (hj.symm.trans hd)
        exact find?_derivesFromAny_iff.mpr ⟨j, hj, hrecognized, hfirst'⟩
      | first _ hnone => exact absurd he (hnone e (List.mem_of_getElem? hi))
  · rename_i hfind
    have hnone := find?_derivesFromAny_eq_none_iff.mp hfind
    constructor
    · intro h
      rw [List.head?_eq_getElem?] at h
      exact ⟨0, .first (List.ne_nil_of_mem (List.mem_of_getElem? h)) hnone, h⟩
    · rintro ⟨j, hj, hd⟩
      cases hj with
      | recognized hj hrecognized =>
        exact absurd hrecognized (hnone _ (List.mem_of_getElem? hj))
      | first => rwa [List.head?_eq_getElem?]

theorem primary?_eq_none_iff : primary? baseTypes types = none ↔ types = [] := by
  unfold primary?
  split
  · rename_i e hfind
    have hne : types ≠ [] := List.ne_nil_of_mem (List.mem_of_find?_eq_some hfind)
    exact iff_of_false (Option.some_ne_none e) hne
  · exact List.head?_eq_none_iff

theorem isRecognized_of_bases_eq (h : d'.bases = d.bases) :
    d'.IsRecognized baseTypes ↔ d.IsRecognized baseTypes := by
  rw [IsRecognized, IsRecognized, h]

theorem exists_getElem?_of_bases_eq (h : types'.map bases = types.map bases)
    (hd : types[i]? = some d) : ∃ d', types'[i]? = some d' ∧ d'.bases = d.bases := by
  have hi : types'[i]?.map bases = types[i]?.map bases := by
    rw [← List.getElem?_map, ← List.getElem?_map, h]
  rw [hd] at hi
  exact Option.map_eq_some_iff.mp hi

theorem PrimaryAt.of_bases_eq (h : types'.map bases = types.map bases)
    (hi : PrimaryAt baseTypes types i) : PrimaryAt baseTypes types' i := by
  cases hi with
  | recognized hd hrecognized hfirst =>
    obtain ⟨d', hd', hbases⟩ := exists_getElem?_of_bases_eq h hd
    refine .recognized hd' ((isRecognized_of_bases_eq hbases).mpr hrecognized) ?_
    intro j e' hj he' hrecognized'
    obtain ⟨e, he, hbases'⟩ := exists_getElem?_of_bases_eq h.symm he'
    exact hfirst j e hj he ((isRecognized_of_bases_eq hbases').mpr hrecognized')
  | first hne hnone =>
    refine .first ?_ fun e' he' hrecognized' => ?_
    · rintro rfl
      exact hne (List.map_eq_nil_iff.mp h.symm)
    · obtain ⟨j, he'⟩ := List.mem_iff_getElem?.mp he'
      obtain ⟨e, he, hbases⟩ := exists_getElem?_of_bases_eq h.symm he'
      exact hnone e (List.mem_of_getElem? he) ((isRecognized_of_bases_eq hbases).mpr hrecognized')

end Primary

end Script.Declaration

namespace SymbolTable

open Script Declaration

variable {baseTypes fields : List Text} {types types' : List Declaration} {d : Declaration}

theorem mem_symbols_ofDeclaration {x : Text} : x ∈ (ofDeclaration d).symbols ↔
    ∃ name, d.Declares name ∧ MemberName.normalize name = x := by
  simp only [ofDeclaration, List.mem_eraseDups, List.mem_map, memberNames, List.mem_append,
    Declares]

theorem isEmpty_symbols_ofDeclaration :
    (ofDeclaration d).symbols.isEmpty = true ↔ d.fields = [] ∧ d.properties = [] := by
  rw [List.isEmpty_iff, List.eq_nil_iff_forall_not_mem]
  constructor
  · intro hnone
    have hnot : ∀ name, ¬ d.Declares name := fun name hname =>
      hnone _ (mem_symbols_ofDeclaration.mpr ⟨name, hname, rfl⟩)
    exact ⟨List.eq_nil_iff_forall_not_mem.mpr fun name hname => hnot name (Or.inl hname),
      List.eq_nil_iff_forall_not_mem.mpr fun name hname => hnot name (Or.inr hname)⟩
  · rintro ⟨hfields, hproperties⟩ x hx
    obtain ⟨name, hname, -⟩ := mem_symbols_ofDeclaration.mp hx
    rw [Declares, hfields, hproperties] at hname
    exact hname.elim List.not_mem_nil List.not_mem_nil

theorem matchesAny_ofDeclaration : (ofDeclaration d).matchesAny fields = true ↔
    ∃ f ∈ fields, ∃ x, d.Declares x ∧ MemberName.normalize f = MemberName.normalize x := by
  simp only [matchesAny, List.any_eq_true, List.contains_iff_mem, mem_symbols_ofDeclaration]
  exact exists_congr fun f => and_congr_right fun _ => exists_congr fun x =>
    and_congr_right fun _ => eq_comm

theorem decide_strict_ofDeclaration :
    (ofDeclaration d).decide .strict fields = false ↔ d.IsMissed fields := by
  have hdecide : (ofDeclaration d).decide .strict fields =
      ((ofDeclaration d).symbols.isEmpty || (ofDeclaration d).matchesAny fields) := rfl
  rw [hdecide, Bool.or_eq_false_iff, ← Bool.not_eq_true, ← Bool.not_eq_true,
    isEmpty_symbols_ofDeclaration, matchesAny_ofDeclaration, not_and_or, IsMissed]
  refine and_congr_right fun _ => ⟨fun hnone f hf x hx heq => hnone ⟨f, hf, x, hx, heq⟩, ?_⟩
  rintro hnone ⟨f, hf, x, hx, heq⟩
  exact hnone f hf x hx heq

theorem decide_strict_ofDeclarations :
    (ofDeclarations baseTypes types).decide .strict fields = false ↔
      ∃ i d, PrimaryAt baseTypes types i ∧ types[i]? = some d ∧ d.IsMissed fields := by
  unfold ofDeclarations
  split
  · rename_i d hprimary
    rw [decide_strict_ofDeclaration]
    constructor
    · intro hmissed
      obtain ⟨i, hi, hd⟩ := primary?_eq_some_iff.mp hprimary
      exact ⟨i, d, hi, hd, hmissed⟩
    · rintro ⟨i, e, hi, he, hmissed⟩
      have heq := primary?_eq_some_iff.mpr ⟨i, hi, he⟩
      rwa [Option.some.inj (hprimary.symm.trans heq)]
  · rename_i hprimary
    obtain rfl := primary?_eq_none_iff.mp hprimary
    refine iff_of_false (show ¬ true = false from Bool.noConfusion) ?_
    rintro ⟨i, d, -, hd, -⟩
    contradiction

theorem ofDeclarations_congr (h : types'.map bases = types.map bases)
    (hmembers : ∀ i d d', PrimaryAt baseTypes types i → types[i]? = some d →
      types'[i]? = some d' → d'.fields = d.fields ∧ d'.properties = d.properties) :
    ofDeclarations baseTypes types' = ofDeclarations baseTypes types := by
  cases hprimary : primary? baseTypes types with
  | none =>
    obtain rfl := primary?_eq_none_iff.mp hprimary
    obtain rfl := List.map_eq_nil_iff.mp h
    rfl
  | some d =>
    obtain ⟨i, hi, hd⟩ := primary?_eq_some_iff.mp hprimary
    obtain ⟨d', hd', -⟩ := exists_getElem?_of_bases_eq h hd
    have hprimary' := primary?_eq_some_iff.mpr ⟨i, hi.of_bases_eq h, hd'⟩
    obtain ⟨hfields, hproperties⟩ := hmembers i d d' hi hd hd'
    have htable : ofDeclaration d' = ofDeclaration d := by
      rw [ofDeclaration, ofDeclaration, memberNames, memberNames, hfields, hproperties]
    rw [ofDeclarations, ofDeclarations, hprimary, hprimary']
    exact htable

end SymbolTable

namespace Resolver

open Script Declaration

variable {resolver : Resolver} {tree : FileTree} {path text : Text} {fields : List Text}

theorem isUsed_of_readText (hcached : resolver.cached? path = none)
    (hread : tree.readText path = .ok text) : (resolver.isUsed tree path fields).2 =
      (SymbolTable.ofDeclarations resolver.baseTypes (ofText text)).decide resolver.policy
        fields := by
  obtain ⟨l, content, hl, hentry, -⟩ := FileTree.readText_eq_ok_iff.mp hread
  have hfile : tree.isFile path = true := FileTree.isFile_iff.mpr ⟨l, content, hl, hentry⟩
  have htable : resolver.readTable tree path =
      .ofDeclarations resolver.baseTypes (ofText text) := by
    rw [readTable, hread]
  rw [isUsed, if_pos hfile, symbolsFor, hcached]
  dsimp only
  rw [store, hcached, htable]

/-- By the strict policy a script that is read for the first time is not used exactly if it declares
a type, its primary type has members, and no serialized field matches one of them. What other types
declare makes no difference. -/
theorem isUsed_strict (hpolicy : resolver.policy = .strict) (hcached : resolver.cached? path = none)
    (hread : tree.readText path = .ok text) :
    ((resolver.isUsed tree path fields).2 = false ↔ ∃ i d,
      PrimaryAt resolver.baseTypes (ofText text) i ∧ (ofText text)[i]? = some d ∧
        d.IsMissed fields) ∧
    ∀ tree' text', FileTree.readText tree' path = .ok text' →
      (ofText text').map bases = (ofText text).map bases →
      (∀ i d d', PrimaryAt resolver.baseTypes (ofText text) i → (ofText text)[i]? = some d →
        (ofText text')[i]? = some d' → d'.fields = d.fields ∧ d'.properties = d.properties) →
      (resolver.isUsed tree' path fields).2 = (resolver.isUsed tree path fields).2 := by
  refine ⟨?_, fun tree' text' hread' hbases hmembers => ?_⟩
  · rw [isUsed_of_readText hcached hread, hpolicy]
    exact SymbolTable.decide_strict_ofDeclarations
  · rw [isUsed_of_readText hcached hread, isUsed_of_readText hcached hread',
      SymbolTable.ofDeclarations_congr hbases hmembers]

/-- The second type is the primary one: the field that matches the first type does not count. -/
theorem isUsed_strict_of_two_types :
    let text := ("class First { int alpha; }\n" ++
      "class Second : Base, MonoBehaviour { int m_Beta; class Inner { int alpha; } }").toList
    let tree : FileTree := ⟨[([['a']], .file (Utf8.encode text))], []⟩
    let resolver := Resolver.new .strict ["MonoBehaviour".toList]
    let path := "/a".toList
    let fields := ["alpha".toList]
    tree.readText path = .ok text ∧ (resolver.isUsed tree path fields).2 = false ∧
      ∃ i d, PrimaryAt resolver.baseTypes (ofText text) i ∧ (ofText text)[i]? = some d ∧
        d.IsMissed fields := by
  rw [String.toList_append]
  repeat rw [String.toList_ofList]
  intro text tree resolver path fields
  have hread : tree.readText path = .ok text := by decide +kernel
  have hunused : (resolver.isUsed tree path fields).2 = false := by decide +kernel
  exact ⟨hread, hunused, (isUsed_strict rfl rfl hread).1.mp hunused⟩

end Resolver

end SceneAudit
