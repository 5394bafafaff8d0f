import SceneAudit.Proofs.Scene.Entities
import SceneAudit.Proofs.Text.Lines
import SceneAudit.Proofs.Yaml.Meaning
import SceneAudit.Scene.Basic

/-! # Names as written

The name of an object is a plain scalar of its block. One that is typed as a string is the name
itself. Any other is looked for in the text of the block, where it is found exactly if it has a line
of its own.
-/

namespace SceneAudit

namespace Text

theorem not_mem_of_mem_lines {l t : Text} (h : l ∈ lines t) : '\n' ∉ l := by
  fun_induction lines t generalizing l with
  | case1 => contradiction
  | case2 t ih =>
    rcases List.mem_cons.mp h with rfl | h
    · exact List.not_mem_nil
    · exact ih h
  | case3 t ih =>
    rcases List.mem_cons.mp h with rfl | h
    · exact List.not_mem_nil
    · exact ih h
  | case4 c t hfeed hreturn hnil ih =>
    obtain rfl := List.mem_singleton.mp h
    simpa using Ne.symm hfeed
  | case5 c t hfeed hreturn first rest hcons ih =>
    rw [hcons] at ih
    rcases List.mem_cons.mp h with rfl | h
    · exact List.not_mem_cons_of_ne_of_not_mem (Ne.symm hfeed) (ih List.mem_cons_self)
    · exact ih (List.mem_cons_of_mem _ h)

theorem head?_lines {l u : Text} (hfeed : '\n' ∉ l) (hlast : l.getLast? ≠ some '\r') (hne : l ≠ [])
    (hu : ∀ c, u.head? = some c → c = '\n') : (lines (l ++ u)).head? = some l := by
  induction l with
  | nil => exact absurd rfl hne
  | cons c l ih =>
    obtain ⟨hc, hl⟩ := List.ne_and_not_mem_of_not_mem_cons hfeed
    rcases l with _ | ⟨d, l⟩
    · have hreturn : c ≠ '\r' := fun heq => hlast (by rw [heq]; rfl)
      rw [List.singleton_append, lines_cons hc.symm fun heq => absurd heq hreturn]
      rcases u with _ | ⟨e, u⟩
      · rfl
      · obtain rfl := hu e rfl
        rfl
    · have hd : d ≠ '\n' := fun heq => hl (heq ▸ List.mem_cons_self)
      have htail := ih hl (by simpa using hlast) (List.cons_ne_nil d l)
      obtain ⟨rest, hrest⟩ := List.head?_eq_some_iff.mp htail
      rw [List.cons_append, lines_cons hc.symm (by simpa using fun _ => hd), hrest]
      rfl

theorem isBlank_of_getLast?_trim {t : Text} {c : Char} (h : (trim t).getLast? = some c) :
    isBlank c = false := by
  have hhead := List.head?_dropWhile_not isBlank (trimStart t).reverse
  rw [trim, trimEnd, dropEnd, List.getLast?_reverse] at h
  rwa [h] at hhead

theorem trimEnd_subset (t : Text) : trimEnd t ⊆ t := by
  obtain ⟨u, hu, -⟩ := trimEnd_prefix t
  intro c hc
  rw [hu]
  exact List.mem_append_left u hc

theorem trim_subset (t : Text) : trim t ⊆ t :=
  fun _ hc => (List.dropWhile_sublist isBlank).subset (trimEnd_subset _ hc)

theorem isBlank_of_head?_trim {t : Text} {c : Char} (h : (trim t).head? = some c) :
    isBlank c = false := by
  have hhead := List.head?_dropWhile_not isBlank t
  obtain ⟨u, hu, -⟩ := trimEnd_prefix (trimStart t)
  have hstart : (trimStart t).head? = some c := by
    rw [hu, List.head?_append, ← trim, h]
    rfl
  rwa [← trimStart, hstart] at hhead

theorem trim_trim (t : Text) : trim (trim t) = trim t :=
  trim_replicate_append 0 (fun _ => isBlank_of_head?_trim) fun _ => isBlank_of_getLast?_trim

end Text

namespace Scene

open Yaml

/-- The first line of the body that has the key at the body's indentation has the text behind the
colon, and nothing else but white space. -/
def OnOwnLine (body key s : Text) : Prop :=
  ∃ indent before rest after, bodyIndent? (Text.lines body) = some indent ∧
    Text.lines body = before ++ (List.replicate indent ' ' ++ (key ++ ':' :: rest)) :: after ∧
    (∀ other, List.replicate indent ' ' ++ (key ++ ':' :: other) ∉ before) ∧ Text.trim rest = s

section Property

variable {indent : Nat} {c : Char} {k rest : Text}

theorem head?_propertyText {body : Text} {before after more : List Text}
    (hlines : Text.lines body =
      before ++ (List.replicate indent ' ' ++ (c :: k ++ ':' :: rest)) :: after)
    (hne : Text.trim rest ≠ []) : (Text.lines (Text.trim rest ++
      more.flatMap fun l => '\n' :: Text.trim l)).head? = some (Text.trim rest) := by
  have hline : List.replicate indent ' ' ++ (c :: k ++ ':' :: rest) ∈ Text.lines body := by
    rw [hlines]
    exact List.mem_append_right before List.mem_cons_self
  refine Text.head?_lines (fun hfeed => ?_) (fun hlast => ?_) hne ?_
  · refine Text.not_mem_of_mem_lines hline ?_
    have hmem := Text.trim_subset rest hfeed
    simp [hmem]
  · exact absurd (Text.isBlank_of_getLast?_trim hlast) (by decide)
  · rcases more with _ | ⟨l, more⟩ <;> simp

theorem onOwnLine_iff (hc : c ≠ ' ') {body s : Text} (hs : s ≠ []) : OnOwnLine body (c :: k) s ↔
    ∃ l, ((propertyText? body (c :: k)).bind fun t => (Text.lines t).head?) = some l ∧
      Text.trim l = s := by
  constructor
  · rintro ⟨indent, before, rest, after, hindent, hlines, hbefore, rfl⟩
    refine ⟨Text.trim rest, ?_, Text.trim_trim rest⟩
    have htext := (propertyIn?_eq_some_iff hc).mpr ⟨before, rest, after, hlines, hbefore, rfl⟩
    rw [propertyText?, hindent]
    simp only [htext, Option.bind_some]
    exact head?_propertyText hlines hs
  · rintro ⟨l, hl, rfl⟩
    obtain ⟨t, ht, hhead⟩ := Option.bind_eq_some_iff.mp hl
    rw [propertyText?] at ht
    split at ht
    · contradiction
    · rename_i indent hindent
      obtain ⟨before, rest, after, hlines, hbefore, rfl⟩ := (propertyIn?_eq_some_iff hc).mp ht
      refine ⟨indent, before, rest, after, hindent, hlines, hbefore, ?_⟩
      by_cases hne : Text.trim rest = []
      · refine absurd ?_ hs
        rw [hne, List.nil_append] at hhead
        cases hmore : after.takeWhile (continues indent) with
        | nil =>
          rw [hmore] at hhead
          contradiction
        | cons line more =>
          rw [hmore] at hhead
          obtain rfl := Option.some.inj hhead
          rfl
      · rw [head?_propertyText hlines hne] at hhead
        obtain rfl := Option.some.inj hhead
        exact (Text.trim_trim rest).symm

end Property

theorem writtenText?_of_not_string {typed : Scalar} (h : ∀ t, typed ≠ .string t)
    (line : Option Text) :
    writtenText? (some (.scalar typed)) line = (line.map Text.trim).filter (· ≠ []) := by
  cases typed with
  | string t => exact absurd rfl (h t)
  | _ =>
    cases line with
    | none => rfl
    | some l => by_cases hl : Text.trim l = [] <;> simp [writtenText?, Option.filter, hl]

theorem objectName_of_plain {block : Block} {body s : Text} {typed : Scalar} (hs : s ≠ [])
    (htyped : Scalar.ofPlain? s = some typed)
    (hlookup : Value.lookup "m_Name".toList block.properties = some (.scalar typed)) :
    let name := Entity.objectName block body
    (name = s ↔ typed = .string s ∨ OnOwnLine body "m_Name".toList s) ∧
      (name ≠ s → OnOwnLine body "m_Name".toList name ∨ name = Entity.unnamed) := by
  intro name
  by_cases hstring : ∃ t, typed = .string t
  · obtain ⟨t, rfl⟩ := hstring
    obtain rfl := Scalar.eq_of_ofPlain?_string htyped
    have hname : name = t := by
      simp only [name, Entity.objectName, hlookup, writtenText?, Option.getD_some]
    exact ⟨iff_of_true hname (.inl rfl), absurd hname⟩
  · have hnot : ∀ t, typed ≠ .string t := fun t ht => hstring ⟨t, ht⟩
    have hother : typed ≠ .string s := hnot s
    have hunnamed : s ≠ Entity.unnamed := by
      rintro rfl
      have hplain : Scalar.ofPlain? Entity.unnamed = some (.string Entity.unnamed) := by decide
      exact hnot _ (Option.some.inj (htyped.symm.trans hplain))
    have hline : ∀ {t : Text}, t ≠ [] → (OnOwnLine body "m_Name".toList t ↔ _) :=
      onOwnLine_iff (by decide)
    let line := (propertyText? body "m_Name".toList).bind fun t => (Text.lines t).head?
    have hname : name = ((line.map Text.trim).filter (· ≠ [])).getD Entity.unnamed := by
      simp only [name, Entity.objectName, hlookup, writtenText?_of_not_string hnot]
      rfl
    cases hwritten : (line.map Text.trim).filter (· ≠ []) with
    | none =>
      rw [hwritten, Option.getD_none] at hname
      have hnever : ¬ OnOwnLine body "m_Name".toList s := by
        rw [hline hs]
        rintro ⟨l, hl, rfl⟩
        have hl' : line = some l := hl
        rw [hl'] at hwritten
        simp [hs] at hwritten
      rw [hname]
      exact ⟨iff_of_false (Ne.symm hunnamed) (not_or.mpr ⟨hother, hnever⟩), fun _ => .inr rfl⟩
    | some t =>
      rw [hwritten, Option.getD_some] at hname
      obtain ⟨hmap, hne⟩ := Option.filter_eq_some_iff.mp hwritten
      obtain ⟨l, hl, rfl⟩ := Option.map_eq_some_iff.mp hmap
      have hne' : Text.trim l ≠ [] := by simpa using hne
      have hon : OnOwnLine body "m_Name".toList (Text.trim l) := (hline hne').mpr ⟨l, hl, rfl⟩
      rw [hname]
      refine ⟨⟨?_, ?_⟩, fun _ => .inl hon⟩
      · rintro rfl
        exact .inr hon
      · rintro (h | h)
        · exact absurd h hother
        · obtain ⟨l', hl', rfl⟩ := (hline hs).mp h
          rw [Option.some.inj (hl.symm.trans hl')]

/-- The entry has the key of names, and a plain scalar with nothing in front of it. -/
def isPlainName (s : Text) : Written × Written → Bool
  | (.scalar keyProps _ key, .scalar props style text) =>
    key == "m_Name".toList && keyProps.tag.isNone && props == Node.noProperties &&
      style == .plain && text == s
  | _ => false

/-- The first entry of the body is a mapping, with these properties in front of it, that has a plain
scalar under the key of names. -/
def hasPlainName (body : Text) (props : Properties) (s : Text) : Bool :=
  match Node.ofText? body with
  | some (some (.mapping _ ((_, .mapping props' nodes) :: _))) =>
    props' == props && nodes.any (isPlainName s)
  | _ => false

theorem exists_of_isPlainName {s : Text} {e : Written × Written} (h : isPlainName s e = true) :
    ∃ keyProps style, keyProps.tag = none ∧
      e = (.scalar keyProps style "m_Name".toList, .scalar Node.noProperties .plain s) := by
  unfold isPlainName at h
  split at h
  · rename_i keyProps style key props style' text
    simp only [Bool.and_eq_true, beq_iff_eq, Option.isNone_iff_eq_none] at h
    obtain ⟨⟨⟨⟨rfl, htag⟩, rfl⟩, rfl⟩, rfl⟩ := h
    exact ⟨keyProps, style, htag, rfl⟩
  · contradiction

theorem exists_of_hasPlainName {body s : Text} {props : Properties}
    (h : hasPlainName body props s = true) : ∃ root first nodes rest keyProps style,
      Node.ofText? body = some (some (.mapping root ((first, .mapping props nodes) :: rest))) ∧
        keyProps.tag = none ∧
        (.scalar keyProps style "m_Name".toList, .scalar Node.noProperties .plain s) ∈ nodes := by
  unfold hasPlainName at h
  split at h
  · rename_i root first props' nodes rest hnode
    obtain ⟨hprops, hany⟩ := (Bool.and_eq_true _ _).mp h
    obtain rfl := beq_iff_eq.mp hprops
    obtain ⟨e, he, hname⟩ := List.any_eq_true.mp hany
    obtain ⟨keyProps, style, htag, rfl⟩ := exists_of_isPlainName hname
    exact ⟨root, first, nodes, rest, keyProps, style, hnode, htag, he⟩
  · contradiction

theorem eq_of_bodyEntry? {k v : Value} {rest properties : List (Value × Value)} {name : Text}
    (h : bodyEntry? (.mapping ((k, v) :: rest)) = some (name, properties)) :
    (∀ entries, v = .mapping entries → properties = entries) ∧
      (∀ tag u, v = .tagged tag u → properties = []) := by
  unfold bodyEntry? at h
  simp only at h
  split at h
  · obtain ⟨-, rfl⟩ := Prod.mk.inj (Option.some.inj h)
    exact ⟨fun _ heq => Value.mapping.inj heq, nofun⟩
  · rename_i hother
    obtain ⟨-, rfl⟩ := Prod.mk.inj (Option.some.inj h)
    exact ⟨fun entries heq => absurd heq (hother entries), fun _ _ _ => rfl⟩
  · contradiction

theorem exists_typed {body s name : Text} {props : Properties} {value : Value}
    {properties : List (Value × Value)} (h : hasPlainName body props s = true)
    (hvalue : Value.ofText? body = some value)
    (hentry : bodyEntry? value = some (name, properties)) :
    (Value.localTag? props = none → ∃ typed, Scalar.ofPlain? s = some typed ∧
        Value.lookup "m_Name".toList properties = some (.scalar typed)) ∧
      (Value.localTag? props ≠ none → properties = []) := by
  obtain ⟨root, first, nodes, rest, keyProps, style, hnode, htag, hmem⟩ := exists_of_hasPlainName h
  obtain ⟨doc, hdoc⟩ := means_of_ofText? hnode hvalue
  obtain ⟨inner, es, rfl, hes, -⟩ := hdoc.mapping
  obtain ⟨⟨k, v⟩, es, ⟨-, hv⟩, -, rfl⟩ := List.forall₂_cons_left_iff.mp hes
  obtain ⟨deeper, entries, rfl, hentries, hdistinct⟩ := Means.mapping hv
  cases hroot : Value.localTag? root with
  | some tag =>
    rw [Value.underTag, hroot] at hentry
    contradiction
  | none =>
    rw [Value.underTag, hroot] at hentry
    obtain ⟨hmapping, htagged⟩ := eq_of_bodyEntry? hentry
    constructor
    · intro hprops
      have hkey : Scalar.ofPlain? "m_Name".toList = some (.string "m_Name".toList) := by decide
      obtain ⟨found, hfound, hlookup⟩ := exists_lookup hentries hdistinct hmem htag hkey
      obtain ⟨typed, htyped, rfl⟩ := hfound.scalar
      rw [hmapping entries (by rw [Value.underTag, hprops])]
      exact ⟨typed, htyped, hlookup⟩
    · intro hprops
      obtain ⟨tag, htag⟩ := Option.ne_none_iff_exists'.mp hprops
      exact htagged tag _ (by rw [Value.underTag, htag])

theorem mem_objects_of_mem_split {reserved : List Text} {text : Text} {raw : RawBlock}
    {block : Block} {o : Object} (hraw : raw ∈ RawBlock.split text)
    (h : Reading.ofRaw reserved raw = .block block (some (.object o))) :
    o ∈ (parse reserved text).objects := by
  have hmem : Reading.block block (some (.object o)) ∈
      (RawBlock.split text).map (Reading.ofRaw reserved) := by
    rw [← h]
    exact List.mem_map_of_mem hraw
  exact List.mem_filterMap.mpr ⟨.object o, List.mem_filterMap.mpr ⟨_, hmem, rfl⟩, rfl⟩

end Scene

open Scene Yaml

/-- The name of an object that is written as a plain scalar is the text of the scalar exactly if
that is typed as a string or has a line of its own; any other is what its line has behind the colon,
or the object counts as unnamed. -/
theorem names_as_written (reserved : List Text) (text : Text) {raw : RawBlock} {block : Block}
    {entity : Option Entity} {props : Properties} {s : Text} (hraw : raw ∈ RawBlock.split text)
    (hread : Reading.ofRaw reserved raw = .block block entity) (hkind : block.kind = .object)
    (hname : hasPlainName raw.body props s = true) (hs : s ≠ []) :
    ∃ o ∈ (parse reserved text).objects, entity = some (.object o) ∧ raw.anchor = some o.anchor ∧
      (Value.localTag? props = none →
        (o.name = s ↔ Scalar.ofPlain? s = some (.string s) ∨
          OnOwnLine raw.body "m_Name".toList s) ∧
        (o.name ≠ s → OnOwnLine raw.body "m_Name".toList o.name ∨ o.name = Entity.unnamed)) ∧
      (Value.localTag? props ≠ none → o.name = Entity.unnamed) := by
  have hread' := hread
  unfold Reading.ofRaw at hread'
  split at hread'
  · contradiction
  · rename_i anchor hanchor
    unfold Reading.ofBody at hread'
    split at hread'
    · contradiction
    · rename_i value hvalue
      split at hread'
      · contradiction
      · rename_i name properties hentry
        obtain ⟨hblock, rfl⟩ := Reading.block.inj hread'
        have hentity : Entity.ofBlock? reserved block raw.body =
            some (.object ⟨block.anchor, Entity.objectName block raw.body⟩) := by
          rw [Entity.ofBlock?, hkind]
        have hproperties : block.properties = properties := by rw [← hblock]
        rw [hblock, hentity] at hread ⊢
        obtain ⟨htyped, hempty⟩ := exists_typed hname hvalue hentry
        refine ⟨_, mem_objects_of_mem_split hraw hread, rfl, ?_, fun htag => ?_, fun htag => ?_⟩
        · rw [hanchor, ← hblock]
        · obtain ⟨typed, htyped, hlookup⟩ := htyped htag
          rw [htyped, Option.some.injEq]
          exact objectName_of_plain hs htyped (hproperties ▸ hlookup)
        · simp only [Entity.objectName, hproperties, hempty htag]
          rfl

/-- A name that is a number, on a line of its own. -/
theorem names_as_written_of_number :
    let text := "--- !u!1 &1\nGameObject:\n  m_Name: 1.50\n".toList
    ∃ raw block entity, raw ∈ RawBlock.split text ∧
      Reading.ofRaw [] raw = .block block entity ∧ block.kind = .object ∧
      hasPlainName raw.body Node.noProperties "1.50".toList = true ∧
      ∃ o ∈ (parse [] text).objects, raw.anchor = some o.anchor ∧ o.name = "1.50".toList := by
  intro text
  let raw : RawBlock := ⟨some ['1'], some ['1'], false, "GameObject:\n  m_Name: 1.50\n".toList⟩
  have hraw : raw ∈ RawBlock.split text := by decide
  have hkind : (Reading.ofRaw [] raw).block?.map Block.kind = some .object := by decide +kernel
  have hname : hasPlainName raw.body Node.noProperties "1.50".toList = true := by decide +kernel
  obtain ⟨block, hblock, hkind⟩ := Option.map_eq_some_iff.mp hkind
  obtain ⟨entity, hread⟩ : ∃ entity, Reading.ofRaw [] raw = .block block entity := by
    revert hblock
    cases Reading.ofRaw [] raw with
    | block b entity =>
      rintro ⟨⟩
      exact ⟨entity, rfl⟩
    | _ => rintro ⟨⟩
  obtain ⟨o, ho, -, hanchor, hresult, -⟩ :=
    names_as_written [] text hraw hread hkind hname (by decide)
  have hline : OnOwnLine raw.body "m_Name".toList "1.50".toList :=
    ⟨2, ["GameObject:".toList], " 1.50".toList, [], by decide, by decide, by simp, by decide⟩
  exact ⟨raw, block, entity, hraw, hread, hkind, hname, o, ho, hanchor,
    (hresult rfl).1.mpr (.inr hline)⟩

/-- A number in flow style is no name, and a comment becomes part of one. -/
theorem not_names_as_written_of_flow_or_comment :
    let flow := "--- !u!1 &1\nGameObject: \x7bm_Name: 5\x7d\n".toList
    let comment := "--- !u!1 &1\nGameObject:\n  m_Name: 5 # x\n".toList
    (RawBlock.split flow ++ RawBlock.split comment).map
        (fun raw => hasPlainName raw.body Node.noProperties ['5']) = [true, true] ∧
      (parse [] flow).objects.map Object.name = ["<unnamed>".toList] ∧
      (parse [] comment).objects.map Object.name = ["5 # x".toList] := by
  repeat rw [String.toList_ofList]
  decide +kernel

end SceneAudit
