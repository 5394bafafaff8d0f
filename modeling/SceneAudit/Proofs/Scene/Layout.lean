import SceneAudit.Proofs.Scene.Blocks
import SceneAudit.Proofs.Scene.Content
import SceneAudit.Scene.Basic

/-! # Blocks in the layout of an editor

A block has a header with class and anchor, a line with its type name, and its properties below at
one margin. It is cut off a scene text as it is, its properties are read as what their contents
stand for, and the text of each property is found again.
-/

namespace SceneAudit.Scene

open Yaml (Value IsKey IsName)

/-- A block in the layout of an editor: class, anchor, type name and properties. -/
structure Layout where
  classId : Text
  anchor : Text
  name : Text
  properties : List (Text × Content)
  deriving DecidableEq, Repr

namespace Layout

def headerWords (l : Layout) : Text :=
  ' ' :: '!' :: 'u' :: '!' :: (l.classId ++ ' ' :: '&' :: l.anchor)

def propertyLines (p : Text × Content) : List Text :=
  (List.replicate Content.margin ' ' ++ (p.1 ++ ':' :: p.2.first)) :: p.2.more

def bodyLines (l : Layout) : List Text :=
  (l.name ++ [':']) :: l.properties.flatMap propertyLines

/-- The text below the header. -/
def body (l : Layout) : Text :=
  Text.unlines l.bodyLines

/-- The text of the block. -/
def text (l : Layout) : Text :=
  Text.unlines ((RawBlock.headerMark ++ l.headerWords) :: l.bodyLines)

/-- The words of the header and the names, keys and contents of the block stand for themselves. -/
structure IsVerbatim (l : Layout) : Prop where
  classId : Text.IsWord l.classId
  anchor : Text.IsWord l.anchor ∧ l.anchor ≠ []
  name : IsKey l.name ∧ IsName l.name ∧ l.name.head? ≠ some '-'
  keys : ∀ key ∈ l.properties.map Prod.fst, IsKey key ∧ IsName key
  contents : ∀ p ∈ l.properties, p.2.IsVerbatim
  nodup : (l.properties.map Prod.fst).Nodup
  nonempty : l.properties ≠ []

instance : DecidablePred IsVerbatim := fun l =>
  decidable_of_iff (Text.IsWord l.classId ∧ (Text.IsWord l.anchor ∧ l.anchor ≠ []) ∧
    (IsKey l.name ∧ IsName l.name ∧ l.name.head? ≠ some '-') ∧
    (∀ key ∈ l.properties.map Prod.fst, IsKey key ∧ IsName key) ∧
    (∀ p ∈ l.properties, p.2.IsVerbatim) ∧ (l.properties.map Prod.fst).Nodup ∧ l.properties ≠ [])
    ⟨fun h => ⟨h.1, h.2.1, h.2.2.1, h.2.2.2.1, h.2.2.2.2.1, h.2.2.2.2.2.1, h.2.2.2.2.2.2⟩,
      fun h => ⟨h.1, h.2, h.3, h.4, h.5, h.6, h.7⟩⟩

theorem IsVerbatim.key {l : Layout} (h : l.IsVerbatim) {p : Text × Content}
    (hp : p ∈ l.properties) : IsKey p.1 ∧ IsName p.1 :=
  h.keys p.1 (List.mem_map_of_mem hp)

/-- The properties as they are read, unless a scalar in one of them is refused. -/
def properties? (l : Layout) : Option (List (Value × Value)) :=
  Yaml.allEntries (l.properties.map fun p => (p.1, p.2.value?))

/-- The block with its properties read. -/
def block (l : Layout) (ps : List (Value × Value)) : Block :=
  ⟨canonicalAnchor l.anchor, .ofName l.name, false, ps⟩

def reading (reserved : List Text) (l : Layout) : Reading :=
  match l.properties? with
  | none => .malformed
  | some ps => .block (l.block ps) (Entity.ofBlock? reserved (l.block ps) l.body)

section Words

theorem words_headerWords {l : Layout} (hclass : Text.IsWord l.classId)
    (hanchor : Text.IsWord l.anchor) :
    Text.words l.headerWords = [['!', 'u', '!'] ++ l.classId, '&' :: l.anchor] := by
  have hfirst : Text.IsWord (['!', 'u', '!'] ++ l.classId) := by
    intro c hc
    rcases List.mem_append.mp hc with hc | hc
    · exact (by decide : Text.IsWord ['!', 'u', '!']) c hc
    · exact hclass c hc
  have hlast : Text.IsWord ('&' :: l.anchor) := List.forall_mem_cons.mpr ⟨by decide, hanchor⟩
  have hback : Text.words ('&' :: l.anchor) = ['&' :: l.anchor] := by
    have happ := Text.words_append (t := []) hlast (List.cons_ne_nil _ _) (by rintro c ⟨⟩)
    rwa [List.append_nil] at happ
  have hsplit : l.headerWords =
      ' ' :: (['!', 'u', '!'] ++ l.classId ++ ' ' :: '&' :: l.anchor) := by
    simp [headerWords]
  rw [hsplit, Text.words_blank (by decide),
    Text.words_append hfirst (by simp) (by rintro c ⟨⟩; rfl), Text.words_blank (by decide), hback]

theorem ofHeader_headerWords {l : Layout} (h : l.IsVerbatim) (body : Text) :
    RawBlock.ofHeader l.headerWords body =
      ⟨some l.classId, some (canonicalAnchor l.anchor), false, body⟩ := by
  obtain ⟨c, t, hanchor⟩ := List.exists_cons_of_ne_nil h.anchor.2
  have hclass : RawBlock.classOf? ('&' :: l.anchor) = none := rfl
  have hnone : RawBlock.anchorOf? (['!', 'u', '!'] ++ l.classId) = none := rfl
  have hsome : RawBlock.anchorOf? ('&' :: l.anchor) = some (canonicalAnchor l.anchor) := by
    rw [hanchor]
    rfl
  have hfound : RawBlock.classOf? (['!', 'u', '!'] ++ l.classId) = some l.classId :=
    Text.dropStart?_append _ _
  rw [RawBlock.ofHeader, words_headerWords h.classId h.anchor.1]
  simp only [List.filterMap_cons, hfound, hclass, hnone, hsome]
  rfl

end Words

section Lines

theorem cut_of_plain {ls : List Text}
    (hheader : ∀ l ∈ ls, Text.startsWith RawBlock.headerMark l = false)
    (hend : ∀ l ∈ ls, ¬RawBlock.EndsDocument l) : RawBlock.cut ls = (Text.unlines ls, []) := by
  rw [RawBlock.cut_of_headerless hheader, RawBlock.kept, List.filter_eq_self.mpr]
  exact fun l hl => decide_eq_true (hend l hl)

theorem head?_of_depth {line : Text} (h : 0 < depth line) : line.head? = some ' ' := by
  cases line with
  | nil => exact absurd h (Nat.lt_irrefl 0)
  | cons c line =>
    by_cases hc : c = ' '
    · rw [hc]
      rfl
    · simp [depth, hc] at h

theorem plain_of_space {line : Text} (h : line.head? = some ' ') :
    Text.startsWith RawBlock.headerMark line = false ∧ ¬RawBlock.EndsDocument line := by
  obtain ⟨t, rfl⟩ := List.head?_eq_some_iff.mp h
  refine ⟨rfl, ?_⟩
  rintro ⟨blanks, hdots, -⟩
  exact absurd (List.cons.inj hdots).1 (by decide)

variable {l : Layout} (h : l.IsVerbatim)

include h

theorem mem_bodyLines {line : Text} (hline : line ∈ l.bodyLines) :
    Text.IsLine line ∧ Text.startsWith RawBlock.headerMark line = false ∧
      ¬RawBlock.EndsDocument line := by
  rcases List.mem_cons.mp hline with rfl | hline
  · obtain ⟨hkey, -, hdash⟩ := h.name
    refine ⟨isLine_of_isInline (hkey.isInline.append (.cons (by decide) (.spaces 0))), ?_, ?_⟩
    · obtain ⟨c, t, hname⟩ := List.exists_cons_of_ne_nil hkey.isPlain.ne_nil
      rw [hname] at hdash ⊢
      have hc : '-' ≠ c := fun heq => hdash (by rw [heq]; rfl)
      simp [Text.startsWith, RawBlock.headerMark, Text.dropStart?, hc]
    · rintro ⟨blanks, hdots, hblanks⟩
      have hlast : ':' ∈ ['.', '.', '.'] ++ blanks := by simp [← hdots]
      rcases List.mem_append.mp hlast with hmem | hmem
      · exact absurd hmem (by decide)
      · exact absurd (hblanks ':' hmem) (by decide)
  · obtain ⟨p, hp, hline⟩ := List.mem_flatMap.mp hline
    have hkey := (h.key hp).1
    have hcontent := h.contents p hp
    rcases List.mem_cons.mp hline with rfl | hline
    · have hspace : (List.replicate Content.margin ' ' ++ (p.1 ++ ':' :: p.2.first)).head? =
          some ' ' := rfl
      obtain ⟨hheader, hend⟩ := plain_of_space hspace
      refine ⟨?_, hheader, hend⟩
      intro x hx
      simp only [List.mem_append, List.mem_cons] at hx
      rcases hx with hx | hx | rfl | hx
      · exact isLine_of_isInline (.spaces Content.margin) x hx
      · exact isLine_of_isInline hkey.isInline x hx
      · decide
      · exact hcontent.isLine _ List.mem_cons_self x hx
    · have hdeep := hcontent.deeper line hline
      obtain ⟨hheader, hend⟩ := plain_of_space (head?_of_depth (Nat.zero_lt_of_lt hdeep))
      exact ⟨hcontent.isLine line (List.mem_cons_of_mem _ hline), hheader, hend⟩

omit h in
theorem isBlock_text : IsBlock l.text where
  header := Text.startsWith_iff.mpr ⟨l.headerWords ++ ('\n' :: l.body), by
    simp [text, body, Text.unlines]⟩
  ended := Text.getLast?_unlines (List.cons_ne_nil _ _)

theorem split_text : RawBlock.split l.text =
    [⟨some l.classId, some (canonicalAnchor l.anchor), false, l.body⟩] := by
  have hheader : Text.IsLine (RawBlock.headerMark ++ l.headerWords) := by
    have hword : ∀ {t : Text}, Text.IsWord t → Text.IsLine t := by
      intro t ht x hx
      constructor <;> rintro rfl <;> exact absurd (ht _ hx) (by decide)
    intro x hx
    simp only [headerWords, RawBlock.headerMark, List.mem_append, List.mem_cons,
      List.not_mem_nil, or_false] at hx
    rcases hx with (rfl | rfl | rfl) | rfl | rfl | rfl | rfl | hx | rfl | rfl | hx
    iterate 7 decide
    · exact hword h.classId x hx
    iterate 2 decide
    · exact hword h.anchor.1 x hx
  have hlines : Text.lines l.text = (RawBlock.headerMark ++ l.headerWords) :: l.bodyLines :=
    Text.lines_unlines (List.forall_mem_cons.mpr ⟨hheader, fun line hline =>
      (mem_bodyLines h hline).1⟩)
  have hcut : RawBlock.cut l.bodyLines = (l.body, []) :=
    cut_of_plain (fun line hline => (mem_bodyLines h hline).2.1)
      fun line hline => (mem_bodyLines h hline).2.2
  rw [RawBlock.split, hlines, RawBlock.cut, hcut]
  simp only [Text.dropStart?_append, ofHeader_headerWords h]

end Lines

section Properties

variable {l : Layout} (h : l.IsVerbatim)

def propertyEntry (p : Text × Content) : Yaml.Entry :=
  ⟨p.1, p.2.text, p.2.value?⟩

theorem unlines_propertyLines (ps : List (Text × Content)) :
    Text.unlines (ps.flatMap propertyLines) =
      (ps.map propertyEntry).flatMap (Yaml.Entry.written Content.margin) := by
  induction ps with
  | nil => rfl
  | cons p ps ih =>
    simp only [Text.unlines] at ih
    simp [Text.unlines, propertyLines, propertyEntry, Yaml.Entry.written, Content.text, ih]

include h

theorem ofText?_body : Value.ofText? l.body =
    l.properties?.map fun ps => .mapping [(.string l.name, .mapping ps)] := by
  have hsound : ∀ e ∈ l.properties.map propertyEntry, e.IsSound Content.margin 1 := by
    intro e he
    obtain ⟨p, hp, rfl⟩ := List.mem_map.mp he
    exact ⟨(h.key hp).1, (h.key hp).2, (h.contents p hp).stands⟩
  have hnodup : ((l.properties.map propertyEntry).map Yaml.Entry.key).Nodup := by
    rw [List.map_map]
    exact h.nodup
  have hstands := Yaml.stands_nested hsound hnodup (show 0 < Content.margin by decide)
    (by simpa using h.nonempty)
  rw [← unlines_propertyLines, List.map_map] at hstands
  have hbody : l.body = [⟨l.name, '\n' :: Text.unlines (l.properties.flatMap propertyLines),
      l.properties?.map .mapping⟩].flatMap (Yaml.Entry.written 0) := by
    simp [body, bodyLines, Text.unlines, Yaml.Entry.written]
  rw [hbody, Yaml.ofText?_written (List.forall_mem_singleton.mpr ⟨h.name.1, h.name.2.1, hstands⟩)
    (by simp) (List.cons_ne_nil _ _) (by decide)]
  cases l.properties? <;> rfl

theorem readings_text (reserved : List Text) :
    (RawBlock.split l.text).map (Reading.ofRaw reserved) = [l.reading reserved] := by
  rw [split_text h, List.map_singleton, Reading.ofRaw]
  simp only [Reading.ofBody, ofText?_body h, reading]
  cases l.properties? <;> rfl

omit h in
theorem parse_texts (reserved : List Text) {ls : List Layout} (h : ∀ l ∈ ls, l.IsVerbatim) :
    parse reserved (ls.map text).flatten = ofReadings (ls.map (reading reserved)) := by
  have hblocks : ∀ b ∈ ls.map text, IsBlock b := by
    intro b hb
    obtain ⟨l, -, rfl⟩ := List.mem_map.mp hb
    exact isBlock_text
  rw [parse_flatten reserved hblocks, List.flatMap_map, List.map_flatMap]
  congr 1
  induction ls with
  | nil => rfl
  | cons l ls ih =>
    obtain ⟨hl, hls⟩ := List.forall_mem_cons.mp h
    rw [List.flatMap_cons, readings_text hl,
      ih hls fun b hb => hblocks b (List.mem_cons_of_mem _ hb)]
    rfl

end Properties

section Written

variable {l : Layout} (h : l.IsVerbatim)

def asWritten (p : Text × Content) : WrittenProperty :=
  ⟨p.1, p.2.first, p.2.more⟩

theorem isPropertyKey_of_isKey {key : Text} (hkey : IsKey key) : IsPropertyKey key := by
  obtain ⟨c, k, hk, hc⟩ := hkey.head
  refine ⟨fun hcolon => ?_, c, k, hk, Yaml.isBlank_of_isQuiet hc⟩
  exact Yaml.ne_colon_of_isQuiet (hkey.chars ':' hcolon) rfl

include h

theorem isBodyOf : IsBodyOf l.body Content.margin (l.name ++ [':'])
    (l.properties.map asWritten) where
  indented := by decide
  margin := by
    obtain ⟨c, k, hk, hc⟩ := h.name.1.head
    rw [hk]
    rintro ⟨⟩
    exact absurd hc (by decide)
  keys := List.forall_mem_map.mpr fun p hp => isPropertyKey_of_isKey (h.key hp).1
  distinct := by
    rw [List.map_map]
    exact h.nodup
  more := List.forall_mem_map.mpr fun p hp line hline =>
    .inr (.inl ((h.contents p hp).deeper line hline))
  lines := by
    have hlines : Text.lines l.body = l.bodyLines :=
      Text.lines_unlines fun line hline => (mem_bodyLines h hline).1
    rw [hlines, List.flatMap_map]
    rfl

theorem propertyText?_body {key : Text} {c : Content} (hmem : (key, c) ∈ l.properties) :
    propertyText? l.body key = some c.writtenText := by
  have hmore : ∀ q ∈ l.properties.map asWritten, ∀ line ∈ q.more, ∀ other,
      line ≠ List.replicate Content.margin ' ' ++ (key ++ ':' :: other) :=
    List.forall_mem_map.mpr fun p hp line hline =>
      ne_of_deeper (isPropertyKey_of_isKey (h.key hmem).1) ((h.contents p hp).deeper line hline)
  have hall : c.more.takeWhile (continues Content.margin) = c.more :=
    List.takeWhile_eq_self_iff.mpr fun line hline =>
      continues_iff.mpr (.inr ((h.contents _ hmem).deeper line hline))
  have htext : propertyText? l.body key = some (Text.trim c.first ++
      (c.more.takeWhile (continues Content.margin)).flatMap fun line => '\n' :: Text.trim line) :=
    (isBodyOf h).propertyText?_eq (List.mem_map_of_mem hmem) hmore
  rwa [hall] at htext

end Written

end Layout

end SceneAudit.Scene
