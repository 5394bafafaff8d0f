import SceneAudit.Config.Settings
import SceneAudit.Proofs.Script.LexemeCuts
import SceneAudit.Proofs.Usage.Verdict
import SceneAudit.Proofs.Yaml.TypedKeys
import SceneAudit.Scene.Basic

/-! # Keys of serialized fields

Below the line of its type, a behavior has its properties one below the other at one column. Those
keys are its serialized fields that are typed as strings and are not reserved, as they are written
and in their order. A member name is typed as a string unless it is a word for nothing or for a
truth value.
-/

namespace SceneAudit

open Yaml (Value IsKey IsName IsAccepted Stands typedEntries?)

namespace Script

/-- A name that a member may have: characters of words that a document may hold, and no digit in
front. -/
structure IsMemberName (name : Text) : Prop where
  head : (name.head?.any fun c => !Text.isDigit c) = true
  chars : ∀ c ∈ name, isWordChar c = true ∧ Yaml.isAllowed c = true

instance : DecidablePred IsMemberName := fun name =>
  decidable_of_iff ((name.head?.any fun c => !Text.isDigit c) = true ∧
    ∀ c ∈ name, isWordChar c = true ∧ Yaml.isAllowed c = true)
    ⟨fun h => ⟨h.1, h.2⟩, fun h => ⟨h.1, h.2⟩⟩

/-- Member names that a document takes for nothing or for a truth value. -/
def typedWords : List Text :=
  ["null", "Null", "NULL", "true", "True", "TRUE", "false", "False", "FALSE"].map String.toList

theorem not_isWordChar_of_mem {c : Char} (h : c ∈ "-?:,[]\x7b\x7d#&*!|>'\"%@\x60.+~".toList) :
    isWordChar c = false := by
  have hall : ∀ d ∈ "-?:,[]\x7b\x7d#&*!|>'\"%@\x60.+~".toList, isWordChar d = false := by decide
  exact hall c h

theorem ne_of_isWordChar {c d : Char} (h : isWordChar c = true)
    (hd : d ∈ "-?:,[]\x7b\x7d#&*!|>'\"%@\x60.+~".toList) : c ≠ d := by
  rintro rfl
  exact Bool.false_ne_true ((not_isWordChar_of_mem hd).symm.trans h)

namespace IsMemberName

variable {name : Text} (h : IsMemberName name)

include h

theorem exists_head : ∃ c t, name = c :: t ∧ Text.isDigit c = false ∧ isWordChar c = true := by
  cases name with
  | nil => exact absurd h.head (by decide)
  | cons c t => exact ⟨c, t, rfl, by simpa using h.head, (h.chars c List.mem_cons_self).1⟩

/-- A member name is typed as a string exactly if it is no word for nothing or for a truth value. -/
theorem isName_iff : IsName name ↔ name ∉ typedWords := by
  obtain ⟨c, t, rfl, hdigit, hword⟩ := h.exists_head
  obtain ⟨hinteger, hpad, hfloat⟩ := Yaml.Scalar.not_number_of_head (u := t) hdigit
    (ne_of_isWordChar hword (by decide)) (ne_of_isWordChar hword (by decide))
    (ne_of_isWordChar hword (by decide))
  have htilde : c :: t ≠ "~".toList := fun heq =>
    ne_of_isWordChar hword (d := '~') (by decide) (List.cons.inj heq).1
  have hwords : c :: t ∈ typedWords ↔
      Yaml.Scalar.isNull (c :: t) = true ∨ Yaml.Scalar.bool? (c :: t) ≠ none := by
    rw [Yaml.Scalar.isNull_iff, ne_eq, Yaml.Scalar.bool?_eq_none_iff, not_not]
    simp only [typedWords, List.map_cons, List.map_nil, List.mem_cons, List.not_mem_nil, or_false,
      htilde, or_assoc]
  rw [hwords, not_or, not_not, Bool.not_eq_true]
  constructor
  · intro hname
    rw [IsName, Yaml.Scalar.ofPlain?] at hname
    split at hname
    · simp at hname
    · rename_i hnot
      split at hname
      · simp at hname
      · rename_i hbool
        exact ⟨Bool.of_not_eq_true fun hnull => hnot (.inr hnull), hbool⟩
  · rintro ⟨hnull, hbool⟩
    rw [IsName, Yaml.Scalar.ofPlain?, if_neg (by simp [hnull]), hbool, hinteger]
    simp only [hpad, hfloat, Bool.false_eq_true, if_false]

end IsMemberName

end Script

namespace Scene

/-- The body of a behavior: the line of its type, and entries at one column below. Each entry has a
key and a text that stands for a value or is refused. -/
structure IsBehaviorBody (column depth : Nat) (entries : List Yaml.Entry) (body : Text) : Prop where
  written : body =
    "MonoBehaviour".toList ++ ':' :: '\n' :: entries.flatMap (Yaml.Entry.written column)
  indented : 0 < column
  nonempty : entries ≠ []
  keys : ∀ e ∈ entries, IsKey e.key
  values : ∀ e ∈ entries, Stands column depth e.text e.value
  shallow : depth + 1 < Value.depthLimit

section Reading

variable {reserved : List Text} {raw : RawBlock} {anchor body : Text} {column depth : Nat}
  {entries : List Yaml.Entry}

theorem IsBehaviorBody.ofText? (h : IsBehaviorBody column depth entries body) :
    Value.ofText? body = (typedEntries? [] (entries.map Yaml.Entry.pair)).map fun ps =>
      .mapping [(.string "MonoBehaviour".toList, .mapping ps)] := by
  have hstands := Yaml.stands_typed h.keys h.values h.indented h.nonempty
  have hkey : IsKey "MonoBehaviour".toList := by decide
  have hname : IsName "MonoBehaviour".toList := by decide +kernel
  have hwritten : body =
      [⟨"MonoBehaviour".toList, '\n' :: entries.flatMap (Yaml.Entry.written column),
        (typedEntries? [] (entries.map Yaml.Entry.pair)).map .mapping⟩].flatMap
          (Yaml.Entry.written 0) := by
    rw [h.written]
    simp [Yaml.Entry.written]
  rw [hwritten, Yaml.ofText?_written (List.forall_mem_singleton.mpr ⟨hkey, hname, hstands⟩)
    (by simp) (List.cons_ne_nil _ _) h.shallow]
  cases typedEntries? [] (entries.map Yaml.Entry.pair) <;> rfl

theorem IsBehaviorBody.reading (h : IsBehaviorBody column depth entries raw.body)
    (hanchor : raw.anchor = some anchor) (reserved : List Text) :
    (¬ IsAccepted (entries.map Yaml.Entry.pair) ∧ Reading.ofRaw reserved raw = .malformed) ∨
      IsAccepted (entries.map Yaml.Entry.pair) ∧ ∃ block script, Reading.ofRaw reserved raw =
        .block block (some (.behavior ⟨anchor, script,
          (entries.map Yaml.Entry.key).filter fun key => IsName key ∧ key ∉ reserved⟩)) := by
  rw [Reading.ofRaw, hanchor]
  simp only [Reading.ofBody, h.ofText?]
  cases hread : typedEntries? [] (entries.map Yaml.Entry.pair) with
  | none => exact .inl ⟨Yaml.typedEntries?_eq_none_iff.mp hread, rfl⟩
  | some ps =>
    obtain ⟨htyped, hdistinct⟩ := Yaml.typedEntries?_nil_eq_some_iff.mp hread
    refine .inr ⟨Yaml.exists_typed_iff.mp ⟨ps, htyped, hdistinct⟩, ?_⟩
    have hfields : Entity.serializedFields reserved ps =
        (entries.map Yaml.Entry.key).filter fun key => IsName key ∧ key ∉ reserved := by
      rw [Entity.serializedFields, Yaml.filterMap_asString? htyped, List.map_map,
        List.filter_filter]
      refine List.filter_congr fun key _ => ?_
      simp [and_comm]
    rw [← hfields]
    exact ⟨_, _, rfl⟩

end Reading

theorem mem_behaviors_of_reading {reserved : List Text} {text : Text} {raw : RawBlock}
    {block : Block} {b : Behavior} (hraw : raw ∈ RawBlock.split text)
    (h : Reading.ofRaw reserved raw = .block block (some (.behavior b))) :
    b ∈ (parse reserved text).behaviors := by
  have hentity : Entity.behavior b ∈ (parse reserved text).entities :=
    List.mem_filterMap.mpr ⟨_, List.mem_map_of_mem hraw, by rw [h]; rfl⟩
  exact List.mem_filterMap.mpr ⟨_, hentity, rfl⟩

open Script Declaration in
/-- A raw block with an anchor whose body is that of a behavior is malformed exactly if a key or a
value is refused or two keys are the same scalar. Otherwise the scene has a behavior with this
anchor whose serialized fields are the keys that are typed as strings and are not reserved, as they
are written and in their order. Of the member names that are not reserved, these are all but the
words for nothing and for truth values. By the strict policy a script that is read for the first
time is used if such a key is a member of its primary type. -/
theorem field_keys_as_written {reserved : List Text} {text : Text} {raw : RawBlock} {anchor : Text}
    {column depth : Nat} {entries : List Yaml.Entry} (hraw : raw ∈ RawBlock.split text)
    (hanchor : raw.anchor = some anchor) (hbody : IsBehaviorBody column depth entries raw.body) :
    (Reading.ofRaw reserved raw = .malformed ↔ ¬ IsAccepted (entries.map Yaml.Entry.pair)) ∧
      (IsAccepted (entries.map Yaml.Entry.pair) → ∃ b ∈ (parse reserved text).behaviors,
        b.anchor = anchor ∧
        b.fields = (entries.map Yaml.Entry.key).filter (fun key => IsName key ∧ key ∉ reserved) ∧
        ∀ key ∈ entries.map Yaml.Entry.key, IsMemberName key → key ∉ reserved →
          (key ∈ b.fields ↔ key ∉ typedWords) ∧
          ∀ (resolver : Resolver) (tree : FileTree) (path script : Text) (d : Declaration),
            resolver.policy = .strict → resolver.cached? path = none →
            tree.readText path = .ok script →
            primary? resolver.baseTypes (ofText script) = some d → d.Declares key →
            key ∉ typedWords → (resolver.isUsed tree path b.fields).2 = true) := by
  rcases hbody.reading hanchor reserved with ⟨hnot, hread⟩ |
    ⟨haccepted, block, identifier, hread⟩
  · exact ⟨iff_of_true hread hnot, fun h => absurd h hnot⟩
  refine ⟨iff_of_false (by simp [hread]) (not_not_intro haccepted), fun _ => ?_⟩
  refine ⟨_, mem_behaviors_of_reading hraw hread, rfl, rfl, ?_⟩
  intro key hkey hmember hunreserved
  have hfield : key ∈ (entries.map Yaml.Entry.key).filter
      (fun key => IsName key ∧ key ∉ reserved) ↔ key ∉ typedWords := by
    rw [List.mem_filter, decide_eq_true_eq, hmember.isName_iff]
    exact ⟨fun h => h.2.1, fun h => ⟨hkey, h, hunreserved⟩⟩
  refine ⟨hfield, ?_⟩
  intro resolver tree path script d hpolicy hcached hscript hprimary hdeclares hword
  rw [Resolver.isUsed_of_readText hcached hscript, hpolicy, SymbolTable.ofDeclarations, hprimary]
  by_contra hunused
  have hmissed := SymbolTable.decide_strict_ofDeclaration.mp (Bool.of_not_eq_true hunused)
  exact hmissed.2 key (hfield.mpr hword) key hdeclares rfl

/-- A reference, a number, a list without items, a word for a truth value as a value, and a key
without any value. -/
theorem field_keys_as_written_of_five_entries :
    let reference := [("guid".toList, Yaml.Atom.plain "abc".toList)]
    let entries : List Yaml.Entry :=
      [⟨"m_Script".toList, Yaml.flowText reference ++ ['\n'],
          (Yaml.allEntries (Yaml.atomPairs reference)).map .mapping⟩,
        ⟨"speed".toList, ' ' :: ((Yaml.Atom.plain "5".toList).text ++ ['\n']),
          (Yaml.Atom.plain "5".toList).value?⟩,
        ⟨"items".toList, " []\n".toList, some (.sequence [])⟩,
        ⟨"Open".toList, ' ' :: ((Yaml.Atom.plain "true".toList).text ++ ['\n']),
          (Yaml.Atom.plain "true".toList).value?⟩,
        ⟨"True".toList, List.replicate 1 ' ' ++ ['\n'], some .null⟩]
    let body := "MonoBehaviour:\n  m_Script: {guid: abc}\n  speed: 5\n  items: []\n".toList ++
      "  Open: true\n  True: \n".toList
    let raw : RawBlock := ⟨some "114".toList, some ['4'], false, body⟩
    let text := "--- !u!114 &4\n".toList ++ body
    let reserved := ["m_Script".toList]
    raw ∈ RawBlock.split text ∧ IsBehaviorBody 2 1 entries raw.body ∧
      IsAccepted (entries.map Yaml.Entry.pair) ∧
      ∃ b ∈ (parse reserved text).behaviors, b.anchor = ['4'] ∧
        b.fields = ["speed".toList, "items".toList, "Open".toList] := by
  repeat rw [String.toList_ofList]
  intro reference entries body raw text reserved
  have hraw : raw ∈ RawBlock.split text := by decide +kernel
  have hbody : IsBehaviorBody 2 1 entries raw.body :=
    ⟨by decide +kernel, by decide, by decide, by decide +kernel,
      List.forall_mem_cons.mpr ⟨Yaml.stands_flow (by decide +kernel), List.forall_mem_cons.mpr
        ⟨(Yaml.stands_atom (by decide +kernel)).mono (Nat.zero_le 1), List.forall_mem_cons.mpr
          ⟨Yaml.stands_noItems, List.forall_mem_cons.mpr
            ⟨(Yaml.stands_atom (by decide +kernel)).mono (Nat.zero_le 1),
              List.forall_mem_singleton.mpr ((Yaml.stands_nothing 1).mono (Nat.zero_le 1))⟩⟩⟩⟩,
      by decide⟩
  have haccepted : IsAccepted (entries.map Yaml.Entry.pair) := by decide +kernel
  obtain ⟨-, hread⟩ := @field_keys_as_written reserved text raw ['4'] 2 1 entries hraw rfl hbody
  obtain ⟨b, hb, hanchor, hfields, -⟩ := hread haccepted
  exact ⟨hraw, hbody, haccepted, b, hb, hanchor, hfields.trans (by decide +kernel)⟩

/-- The one field of a behavior has a name that is a word for a truth value: it is no serialized
field, and the script that declares it is not used. -/
theorem not_field_keys_as_written_of_truth_word :
    let text := ("--- !u!114 &4\nMonoBehaviour:\n" ++
      "  m_Script: {fileID: 11500000, guid: abc, type: 3}\n  True: 1\n").toList
    let script := "class A : MonoBehaviour \x7b public int True; \x7d".toList
    let tree : FileTree := ⟨[([['a']], .file (Utf8.encode script))], []⟩
    Script.IsMemberName "True".toList ∧
      (parse UsageConfig.default.reservedFields text).behaviors = [⟨['4'], "abc".toList, []⟩] ∧
      (Script.Declaration.ofText script).map (fun d => d.fields) = [["True".toList]] ∧
      ((Resolver.new .strict ["MonoBehaviour".toList]).isUsed tree "/a".toList []).2 = false := by
  rw [String.toList_append]
  repeat rw [String.toList_ofList]
  decide +kernel

end Scene

end SceneAudit
