import SceneAudit.Proofs.Text.Blank
import SceneAudit.Scene.WrittenText

/-! # The text of a property

A body has a line at the margin and properties below it, all with one indentation. The text of a
property begins behind the key and colon on its own line and goes on over the lines that are blank
or indented more deeply. Such lines never pass for the line of another property, whatever they hold,
and neither do items of a list, which are indented like properties.
-/

namespace SceneAudit.Scene

/-- A property as it is written: its key, the rest of its line, and the lines below. -/
structure WrittenProperty where
  key : Text
  value : Text
  more : List Text
  deriving DecidableEq, Repr

namespace WrittenProperty

/-- The property's own line. -/
def line (indent : Nat) (p : WrittenProperty) : Text :=
  List.replicate indent ' ' ++ (p.key ++ ':' :: p.value)

/-- The property's own line and the lines below. -/
def lines (indent : Nat) (p : WrittenProperty) : List Text :=
  p.line indent :: p.more

end WrittenProperty

/-- A key that ends where its colon stands and is told apart from the white space in front. -/
structure IsPropertyKey (key : Text) : Prop where
  no_colon : ':' ∉ key
  head : ∃ c k, key = c :: k ∧ Text.isBlank c = false

/-- A line of white space. -/
def IsBlankLine (l : Text) : Prop :=
  ∀ c ∈ l, Text.isBlank c = true

/-- A line of a list item with this indentation. -/
def IsItem (indent : Nat) (l : Text) : Prop :=
  ∃ t, l = List.replicate indent ' ' ++ '-' :: ' ' :: t

instance : DecidablePred IsPropertyKey := fun key =>
  decidable_of_iff (':' ∉ key ∧ key.head?.map Text.isBlank = some false) <| by
    constructor
    · rintro ⟨hcolon, hhead⟩
      obtain ⟨c, hc, hblank⟩ := Option.map_eq_some_iff.mp hhead
      obtain ⟨k, hk⟩ := List.head?_eq_some_iff.mp hc
      exact ⟨hcolon, c, k, hk, hblank⟩
    · rintro ⟨hcolon, c, k, rfl, hblank⟩
      exact ⟨hcolon, congrArg some hblank⟩

instance : DecidablePred IsBlankLine := fun l =>
  inferInstanceAs (Decidable (∀ c ∈ l, Text.isBlank c = true))

instance (indent : Nat) : DecidablePred (IsItem indent) := fun l =>
  decidable_of_iff (Text.startsWith (List.replicate indent ' ' ++ ['-', ' ']) l = true) <| by
    rw [Text.startsWith_iff, IsItem]
    simp

/-- A body that consists of a line at the margin and of properties with distinct keys and one
indentation, with lines below each that are blank, indented more deeply, or items of a list. -/
structure IsBodyOf (body : Text) (indent : Nat) (first : Text) (ps : List WrittenProperty) :
    Prop where
  indented : 1 ≤ indent
  margin : first.head? ≠ some ' '
  keys : ∀ p ∈ ps, IsPropertyKey p.key
  distinct : (ps.map WrittenProperty.key).Nodup
  more : ∀ p ∈ ps, ∀ l ∈ p.more, IsBlankLine l ∨ indent < depth l ∨ IsItem indent l
  lines : Text.lines body = first :: ps.flatMap (WrittenProperty.lines indent)

instance (body : Text) (indent : Nat) (first : Text) (ps : List WrittenProperty) :
    Decidable (IsBodyOf body indent first ps) :=
  decidable_of_iff (1 ≤ indent ∧ first.head? ≠ some ' ' ∧ (∀ p ∈ ps, IsPropertyKey p.key) ∧
    (ps.map WrittenProperty.key).Nodup ∧
    (∀ p ∈ ps, ∀ l ∈ p.more, IsBlankLine l ∨ indent < depth l ∨ IsItem indent l) ∧
    Text.lines body = first :: ps.flatMap (WrittenProperty.lines indent))
    ⟨fun h => ⟨h.1, h.2.1, h.2.2.1, h.2.2.2.1, h.2.2.2.2.1, h.2.2.2.2.2⟩,
      fun h => ⟨h.1, h.2, h.3, h.4, h.5, h.6⟩⟩

section Lines

variable {indent : Nat} {c : Char} {k key l t : Text}

theorem continues_iff : continues indent l = true ↔ IsBlankLine l ∨ indent < depth l := by
  rw [continues, Bool.or_eq_true, decide_eq_true_iff, beq_iff_eq, Text.trim_eq_nil_iff, or_comm]
  rfl

theorem ne_space_of_not_blank (hc : Text.isBlank c = false) : c ≠ ' ' := by
  rintro rfl
  exact absurd hc (by decide)

theorem depth_spaces (n : Nat) (hc : c ≠ ' ') : depth (List.replicate n ' ' ++ c :: t) = n := by
  rw [depth, List.takeWhile_append_of_pos (by simp),
    List.takeWhile_cons_of_neg (by simpa using hc)]
  simp

theorem eq_replicate_depth (line : Text) :
    line = List.replicate (depth line) ' ' ++ line.drop (depth line) := by
  have hspaces : line.takeWhile (· = ' ') = List.replicate (depth line) ' ' := by
    refine List.eq_replicate_iff.mpr ⟨rfl, fun c hc => ?_⟩
    simpa using List.mem_takeWhile_imp hc
  have hsplit : line.takeWhile (· = ' ') ++ line.dropWhile (· = ' ') = line :=
    List.takeWhile_append_dropWhile
  have hdrop : line.drop (depth line) = line.dropWhile (· = ' ') := by
    calc line.drop (depth line)
        = (line.takeWhile (· = ' ') ++ line.dropWhile (· = ' ')).drop (depth line) := by rw [hsplit]
      _ = line.dropWhile (· = ' ') := List.drop_left' rfl
  rw [hdrop, ← hspaces, hsplit]

theorem keys_eq_of_append {key' : Text} (hkey : ':' ∉ key) (hkey' : ':' ∉ key') {t u : Text}
    (h : key ++ ':' :: t = key' ++ ':' :: u) : key = key' := by
  have hfront : ∀ {k : Text}, ':' ∉ k → ∀ u, (k ++ ':' :: u).takeWhile (· ≠ ':') = k := by
    intro k hk u
    refine Text.takeWhile_run (fun c hc => decide_eq_true ?_) ?_
    · rintro rfl
      exact hk hc
    · rintro d ⟨⟩
      rfl
  have hsame := congrArg (List.takeWhile (· ≠ ':')) h
  rwa [hfront hkey, hfront hkey'] at hsame

theorem ne_of_deeper (hkey : IsPropertyKey key) (hl : indent < depth l) (other : Text) :
    l ≠ List.replicate indent ' ' ++ (key ++ ':' :: other) := by
  obtain ⟨c, k, rfl, hc⟩ := hkey.head
  rintro rfl
  rw [List.cons_append, depth_spaces indent (ne_space_of_not_blank hc)] at hl
  exact absurd hl (Nat.lt_irrefl indent)

theorem ne_of_more (hkey : IsPropertyKey key) (hdash : key.head? ≠ some '-')
    (hl : IsBlankLine l ∨ indent < depth l ∨ IsItem indent l) (other : Text) :
    l ≠ List.replicate indent ' ' ++ (key ++ ':' :: other) := by
  rcases hl with hblank | hdeeper | ⟨t, ht⟩
  · obtain ⟨c, k, rfl, hc⟩ := hkey.head
    rintro rfl
    rw [hblank c (by simp)] at hc
    contradiction
  · exact ne_of_deeper hkey hdeeper other
  · obtain ⟨c, k, rfl, -⟩ := hkey.head
    rintro rfl
    have hfirst := List.append_cancel_left ht
    rw [List.cons_append] at hfirst
    exact hdash (congrArg some (List.cons.inj hfirst).1)

end Lines

section Property

variable {indent : Nat} {c : Char} {k rest t : Text} (hc : c ≠ ' ')

include hc

theorem afterKey?_eq_some_iff {line : Text} : afterKey? indent (c :: k) line = some rest ↔
    line = List.replicate indent ' ' ++ (c :: k ++ ':' :: rest) := by
  constructor
  · intro h
    rw [afterKey?] at h
    split at h
    · rename_i hdepth
      obtain ⟨u, hu, hrest⟩ := Option.bind_eq_some_iff.mp h
      have hline := eq_replicate_depth line
      rw [hdepth, Text.dropStart?_eq_some_iff.mp hu, Text.dropStart?_eq_some_iff.mp hrest] at hline
      exact hline
    · contradiction
  · rintro rfl
    rw [afterKey?, List.cons_append, if_pos (depth_spaces indent hc),
      List.drop_left' List.length_replicate, ← List.cons_append, Text.dropStart?_append]
    rfl

theorem propertyIn?_eq_some_iff {lines : List Text} :
    propertyIn? indent (c :: k) lines = some t ↔ ∃ before rest after,
      lines = before ++ (List.replicate indent ' ' ++ (c :: k ++ ':' :: rest)) :: after ∧
        (∀ other, List.replicate indent ' ' ++ (c :: k ++ ':' :: other) ∉ before) ∧
        t = Text.trim rest ++
          (after.takeWhile (continues indent)).flatMap fun l => '\n' :: Text.trim l := by
  induction lines with
  | nil => simp [propertyIn?]
  | cons line lines ih =>
    rw [propertyIn?]
    split
    · rename_i hother
      have hne : ∀ rest, line ≠ List.replicate indent ' ' ++ (c :: k ++ ':' :: rest) :=
        fun rest heq => by
          rw [(afterKey?_eq_some_iff hc).mpr heq] at hother
          contradiction
      rw [ih]
      constructor
      · rintro ⟨before, rest, after, rfl, hbefore, rfl⟩
        refine ⟨line :: before, rest, after, rfl, fun other hmem => ?_, rfl⟩
        rcases List.mem_cons.mp hmem with heq | hmem
        · exact hne other heq.symm
        · exact hbefore other hmem
      · rintro ⟨before, rest, after, hlines, hbefore, rfl⟩
        rcases before with _ | ⟨first, before⟩
        · exact absurd (List.cons.inj hlines).1 (hne rest)
        · obtain ⟨-, rfl⟩ := List.cons.inj hlines
          exact ⟨before, rest, after, rfl,
            fun other hmem => hbefore other (List.mem_cons_of_mem _ hmem), rfl⟩
    · rename_i rest hrest
      obtain rfl := (afterKey?_eq_some_iff hc).mp hrest
      constructor
      · intro h
        exact ⟨[], rest, lines, rfl, fun _ => List.not_mem_nil, (Option.some.inj h).symm⟩
      · rintro ⟨before, rest', after, hlines, hbefore, rfl⟩
        rcases before with _ | ⟨first, before⟩
        · obtain ⟨hline, rfl⟩ := List.cons.inj hlines
          have hsame : rest = rest' := by simpa using hline
          rw [hsame]
        · obtain ⟨rfl, -⟩ := List.cons.inj hlines
          exact absurd List.mem_cons_self (hbefore rest)

end Property

section Body

variable {body first key : Text} {indent : Nat} {p : WrittenProperty} {ps : List WrittenProperty}

theorem not_continues_line (hkey : IsPropertyKey p.key) :
    continues indent (p.line indent) = false := by
  obtain ⟨c, k, hk, hc⟩ := hkey.head
  have hdepth : depth (p.line indent) = indent := by
    rw [WrittenProperty.line, hk]
    exact depth_spaces indent (ne_space_of_not_blank hc)
  rw [← Bool.not_eq_true, continues_iff, hdepth, not_or]
  refine ⟨fun hblank => ?_, Nat.lt_irrefl indent⟩
  have hfirst := hblank c (by simp [WrittenProperty.line, hk])
  rw [hc] at hfirst
  contradiction

theorem takeWhile_more (hkeys : ∀ q ∈ ps, IsPropertyKey q.key) (more : List Text) :
    (more ++ ps.flatMap (WrittenProperty.lines indent)).takeWhile (continues indent) =
      more.takeWhile (continues indent) := by
  induction more with
  | nil =>
    cases ps with
    | nil => rfl
    | cons q ps =>
      have hstop : continues indent (q.line indent) = false :=
        not_continues_line (hkeys q List.mem_cons_self)
      exact List.takeWhile_cons_of_neg (by simp [hstop])
  | cons l more ih =>
    rw [List.cons_append]
    cases hl : continues indent l with
    | false => simp [hl]
    | true => simp [hl, ih]

theorem exists_of_mem_lines (hindent : 1 ≤ indent) (hfirst : first.head? ≠ some ' ')
    (hkeys : ∀ q ∈ ps, IsPropertyKey q.key) (hkey : IsPropertyKey key)
    (hmore : ∀ q ∈ ps, ∀ l ∈ q.more, ∀ other,
      l ≠ List.replicate indent ' ' ++ (key ++ ':' :: other)) {other : Text}
    (hmem : List.replicate indent ' ' ++ (key ++ ':' :: other) ∈
      first :: ps.flatMap (WrittenProperty.lines indent)) : ∃ q ∈ ps, q.key = key := by
  rcases List.mem_cons.mp hmem with heq | hmem
  · obtain ⟨n, rfl⟩ := Nat.exists_eq_add_of_le' hindent
    rw [← heq] at hfirst
    exact absurd rfl hfirst
  · obtain ⟨q, hq, hmem⟩ := List.mem_flatMap.mp hmem
    rcases List.mem_cons.mp hmem with heq | hmem
    · have hkey' := keys_eq_of_append hkey.no_colon (hkeys q hq).no_colon
        (List.append_cancel_left heq)
      exact ⟨q, hq, hkey'.symm⟩
    · exact absurd rfl (hmore q hq _ hmem other)

namespace IsBodyOf

variable (h : IsBodyOf body indent first ps)

include h

theorem bodyIndent?_eq (hne : ps ≠ []) : bodyIndent? (Text.lines body) = some indent := by
  obtain ⟨p, ps, rfl⟩ := List.exists_cons_of_ne_nil hne
  obtain ⟨c, k, hk, hc⟩ := (h.keys p List.mem_cons_self).head
  have hspace := ne_space_of_not_blank hc
  have hout : isIndented first = false := by
    simp [isIndented, h.margin]
  have hin : isIndented (p.line indent) = true := by
    obtain ⟨n, hn⟩ := Nat.exists_eq_add_of_le' h.indented
    simp [isIndented, WrittenProperty.line, hk, hn, List.replicate_succ, hspace]
  have hlines : Text.lines body =
      first :: p.line indent :: (p.more ++ ps.flatMap (WrittenProperty.lines indent)) := h.lines
  rw [bodyIndent?, hlines, List.find?_cons, hout]
  simp only [List.find?_cons, hin, Option.map_some]
  rw [WrittenProperty.line, hk, List.cons_append, depth_spaces indent hspace]

theorem propertyText?_eq_none (hkey : IsPropertyKey key) (hnone : key ∉ ps.map WrittenProperty.key)
    (hmore : ∀ q ∈ ps, ∀ l ∈ q.more, ∀ other,
      l ≠ List.replicate indent ' ' ++ (key ++ ':' :: other)) :
    propertyText? body key = none := by
  by_cases hne : ps = []
  · have hout : isIndented first = false := by
      simp [isIndented, h.margin]
    have hlines : Text.lines body = [first] := by
      rw [h.lines, hne, List.flatMap_nil]
    rw [propertyText?, hlines, bodyIndent?, List.find?_singleton, hout]
    rfl
  · obtain ⟨c, k, rfl, hc⟩ := hkey.head
    rw [propertyText?, h.bodyIndent?_eq hne]
    by_contra hsome
    obtain ⟨t, ht⟩ := Option.ne_none_iff_exists'.mp hsome
    obtain ⟨before, rest, after, hlines, -⟩ :=
      (propertyIn?_eq_some_iff (ne_space_of_not_blank hc)).mp ht
    have hmem : List.replicate indent ' ' ++ (c :: k ++ ':' :: rest) ∈ Text.lines body := by
      rw [hlines]
      exact List.mem_append_right before List.mem_cons_self
    rw [h.lines] at hmem
    obtain ⟨q, hq, hsame⟩ := exists_of_mem_lines h.indented h.margin h.keys hkey hmore hmem
    exact hnone (List.mem_map.mpr ⟨q, hq, hsame⟩)

/-- The text of a property is the rest of its line and the lines that go on with it. -/
theorem propertyText?_eq (hp : p ∈ ps) (hmore : ∀ q ∈ ps, ∀ l ∈ q.more, ∀ other,
      l ≠ List.replicate indent ' ' ++ (p.key ++ ':' :: other)) :
    propertyText? body p.key = some (Text.trim p.value ++
      (p.more.takeWhile (continues indent)).flatMap fun l => '\n' :: Text.trim l) := by
  have hindent := h.bodyIndent?_eq (List.ne_nil_of_mem hp)
  obtain ⟨front, back, rfl⟩ := List.append_of_mem hp
  obtain ⟨hfront, hkeys⟩ := List.forall_mem_append.mp h.keys
  obtain ⟨hkey, hback⟩ := List.forall_mem_cons.mp hkeys
  have hlines : Text.lines body =
      (first :: front.flatMap (WrittenProperty.lines indent)) ++
        p.line indent :: (p.more ++ back.flatMap (WrittenProperty.lines indent)) := by
    rw [h.lines]
    simp [WrittenProperty.lines]
  have hbefore : ∀ other, List.replicate indent ' ' ++ (p.key ++ ':' :: other) ∉
      first :: front.flatMap (WrittenProperty.lines indent) := by
    intro other hmem
    obtain ⟨q, hq, hsame⟩ := exists_of_mem_lines h.indented h.margin hfront hkey
      (fun q hq => hmore q (List.mem_append_left _ hq)) hmem
    have hdistinct := h.distinct
    rw [List.map_append, List.nodup_append] at hdistinct
    exact hdistinct.2.2 q.key (List.mem_map_of_mem hq) p.key (by simp) hsame
  obtain ⟨c, k, hk, hc⟩ := hkey.head
  rw [propertyText?, hindent]
  simp only [WrittenProperty.line, hk] at hlines hbefore ⊢
  refine (propertyIn?_eq_some_iff (ne_space_of_not_blank hc)).mpr ⟨_, _, _, hlines, hbefore, ?_⟩
  rw [takeWhile_more hback]

end IsBodyOf

end Body

/-- The text of a property is found in every body of this form: it is what follows on the property's
line and on the lines below, up to the first that is neither blank nor indented more deeply, each
trimmed. A key that no property has is not found, whatever the lines below the properties hold. -/
theorem property_texts_exact {body first key : Text} {indent : Nat} {ps : List WrittenProperty}
    (hbody : IsBodyOf body indent first ps) (hkey : IsPropertyKey key)
    (hdash : key.head? ≠ some '-') :
    (key ∉ ps.map WrittenProperty.key → propertyText? body key = none) ∧
    ∀ p ∈ ps, p.key = key → ∃ taken left, p.more = taken ++ left ∧
      (∀ l ∈ taken, IsBlankLine l ∨ indent < depth l) ∧
      (∀ l, left.head? = some l → ¬ IsBlankLine l ∧ depth l ≤ indent) ∧
      propertyText? body key =
        some (Text.trim p.value ++ taken.flatMap fun l => '\n' :: Text.trim l) := by
  have hmore : ∀ q ∈ ps, ∀ l ∈ q.more, ∀ other,
      l ≠ List.replicate indent ' ' ++ (key ++ ':' :: other) := fun q hq l hl =>
    ne_of_more hkey hdash (hbody.more q hq l hl)
  refine ⟨fun hnone => hbody.propertyText?_eq_none hkey hnone hmore, ?_⟩
  rintro p hp rfl
  refine ⟨_, _, List.takeWhile_append_dropWhile.symm, ?_, ?_, hbody.propertyText?_eq hp hmore⟩
  · exact fun l hl => continues_iff.mp (List.mem_takeWhile_imp hl)
  · intro l hl
    have hstop := List.head?_dropWhile_not (continues indent) p.more
    rw [hl] at hstop
    have hnot : ¬ (IsBlankLine l ∨ indent < depth l) := by
      rw [← continues_iff]
      simpa using hstop
    exact ⟨fun hblank => hnot (.inl hblank), Nat.le_of_not_lt fun hdeep => hnot (.inr hdeep)⟩

/-- A body that has the key in a longer key, in deeper lines and in a list. -/
theorem property_texts_exact_of_nested_keys :
    let body :=
      "X:\n ab: 1\n c:\n - a: 2\n   a: 3\n\n a:  4 \r\n\n  a: 5\n\t\n - a: 6\n  7\n".toList
    let named : WrittenProperty := ⟨['a'], "  4 ".toList,
      [[], "  a: 5".toList, ['\t'], " - a: 6".toList, "  7".toList]⟩
    let ps : List WrittenProperty := [⟨['a', 'b'], [' ', '1'], []⟩,
      ⟨['c'], [], [" - a: 2".toList, "   a: 3".toList, []]⟩, named]
    IsBodyOf body 1 ['X', ':'] ps ∧ IsPropertyKey ['a'] ∧ ['a'].head? ≠ some '-' ∧
      propertyText? body ['a'] = some "4\n\na: 5\n".toList ∧
      (∃ taken left, named.more = taken ++ left ∧ (∀ l ∈ taken, IsBlankLine l ∨ 1 < depth l) ∧
        (∀ l, left.head? = some l → ¬ IsBlankLine l ∧ depth l ≤ 1) ∧
        propertyText? body ['a'] =
          some (Text.trim named.value ++ taken.flatMap fun l => '\n' :: Text.trim l)) ∧
      propertyText? body ['b'] = none := by
  repeat rw [String.toList_ofList]
  intro body named ps
  have hbody : IsBodyOf body 1 ['X', ':'] ps := by decide
  have hkey : IsPropertyKey ['a'] := by decide
  have hdash : ['a'].head? ≠ some '-' := by decide
  have hmem : named ∈ ps := by decide
  exact ⟨hbody, hkey, hdash, by decide,
    (property_texts_exact hbody hkey hdash).2 named hmem rfl,
    (property_texts_exact hbody (by decide) (by decide)).1 (by decide)⟩

end SceneAudit.Scene
