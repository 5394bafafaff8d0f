import SceneAudit.Proofs.Text.Basic
import SceneAudit.Yaml.Tag

/-! # Readers that stay on their line

Names of anchors and tags contain no line feed, and a directive ends with its line. So a text that
begins further down is still to be read behind them.
-/

namespace SceneAudit.Yaml

def Within (t rest : Text) : Prop :=
  ∃ p, t = p ++ rest ∧ '\n' ∉ p

/-- What lies in front of `rest` has no line feed but at its end. -/
def OnLine (t rest : Text) : Prop :=
  ∃ p, t = p ++ rest ∧ '\n' ∉ p.dropLast

section Reading

variable {t rest more : Text}

namespace Within

theorem refl (t : Text) : Within t t :=
  ⟨[], rfl, List.not_mem_nil⟩

theorem cons {c : Char} (hc : c ≠ '\n') (h : Within t rest) : Within (c :: t) rest := by
  obtain ⟨p, rfl, hp⟩ := h
  exact ⟨c :: p, rfl, List.not_mem_cons_of_ne_of_not_mem hc.symm hp⟩

theorem trans (h : Within t rest) (h' : Within rest more) : Within t more := by
  obtain ⟨p, rfl, hp⟩ := h
  obtain ⟨q, rfl, hq⟩ := h'
  refine ⟨p ++ q, (List.append_assoc ..).symm, ?_⟩
  rw [List.mem_append, not_or]
  exact ⟨hp, hq⟩

theorem run {p : Char → Bool} (hp : p '\n' = false) (t : Text) :
    Within t (t.drop (t.takeWhile p).length) := by
  have hcut := List.prefix_iff_eq_append.mp (List.takeWhile_prefix p (l := t))
  refine ⟨t.takeWhile p, hcut.symm, fun hmem => ?_⟩
  rw [List.mem_takeWhile_imp hmem] at hp
  contradiction

theorem next {p : Char → Bool} (hp : p '\n' = false) (h : nextIs p t = true) :
    Within t (t.drop 1) := by
  cases t with
  | nil => contradiction
  | cons c t =>
    refine cons ?_ (refl t)
    rintro rfl
    rw [show p '\n' = true from h] at hp
    contradiction

theorem onLine (h : Within t rest) (h' : OnLine rest more) : OnLine t more := by
  obtain ⟨p, rfl, hp⟩ := h
  obtain ⟨q, rfl, hq⟩ := h'
  refine ⟨p ++ q, (List.append_assoc ..).symm, fun hmem => ?_⟩
  rw [List.dropLast_append] at hmem
  split at hmem
  · exact hp (List.dropLast_subset p hmem)
  · exact (List.mem_append.mp hmem).elim hp hq

end Within

theorem OnLine.refl (t : Text) : OnLine t t :=
  ⟨[], rfl, List.not_mem_nil⟩

end Reading

section Names

variable {cur cur' : Cursor} {t : Text} {c : Char}

theorem within_of_anchorName {name : Text} (hrest : cur.rest = c :: t) (hc : c ≠ '\n')
    (h : anchorName cur = some (name, cur')) : Within cur.rest cur'.rest := by
  unfold anchorName at h
  simp only [Cursor.skip, hrest, List.drop_succ_cons, List.drop_zero] at h
  split at h
  · contradiction
  · obtain ⟨-, rfl⟩ := Prod.mk.inj (Option.some.inj h)
    rw [hrest]
    exact (Within.run rfl t).cons hc

end Names

section Tags

variable {cur cur' : Cursor} {t rest : Text} {verbatim : Bool}

theorem within_of_escapedByte {b : Nat} (h : escapedByte? t = some (b, rest)) :
    Within t rest := by
  unfold escapedByte? at h
  split at h
  · rename_i x y t
    obtain ⟨n, hn, hpair⟩ := Option.map_eq_some_iff.mp h
    obtain ⟨-, rfl⟩ := Prod.mk.inj hpair
    have hx : x ≠ '\n' := by
      rintro rfl
      simp [Text.readNat?, Text.readDigitsFrom, Text.digitValue?] at hn
    have hy : y ≠ '\n' := by
      rintro rfl
      simp only [Text.readNat?, Text.readDigitsFrom] at hn
      split at hn
      · split at hn <;> simp [Text.digitValue?] at hn
      · contradiction
    exact (((Within.refl t).cons hy).cons hx).cons (by decide)
  · contradiction

theorem within_of_escapedTail {n : Nat} {bytes : Bytes}
    (h : escapedTail n t = some (bytes, rest)) : Within t rest := by
  induction n generalizing t bytes with
  | zero =>
    obtain ⟨-, rfl⟩ := Prod.mk.inj (Option.some.inj h)
    exact .refl t
  | succ n ih =>
    unfold escapedTail at h
    split at h
    · contradiction
    · rename_i b more hbyte
      split at h
      · obtain ⟨⟨bytes', rest'⟩, htail, hpair⟩ := Option.map_eq_some_iff.mp h
        obtain ⟨-, rfl⟩ := Prod.mk.inj hpair
        exact (within_of_escapedByte hbyte).trans (ih htail)
      · contradiction

theorem within_of_escapedChar {bytes : Bytes} (h : escapedChar? t = some (bytes, rest)) :
    Within t rest := by
  unfold escapedChar? at h
  split at h
  · contradiction
  · rename_i b more hbyte
    split at h
    · contradiction
    · obtain ⟨⟨bytes', rest'⟩, htail, hpair⟩ := Option.map_eq_some_iff.mp h
      obtain ⟨-, rfl⟩ := Prod.mk.inj hpair
      exact (within_of_escapedByte hbyte).trans (within_of_escapedTail htail)

theorem within_of_tagBytes {fuel : Nat} {bytes : Bytes}
    (h : tagBytes verbatim fuel t = some (bytes, rest)) : Within t rest := by
  induction fuel generalizing t bytes with
  | zero =>
    obtain ⟨-, rfl⟩ := Prod.mk.inj (Option.some.inj h)
    exact .refl t
  | succ fuel ih =>
    cases t with
    | nil =>
      obtain ⟨-, rfl⟩ := Prod.mk.inj (Option.some.inj h)
      exact .refl []
    | cons c t =>
      unfold tagBytes at h
      split at h
      · obtain ⟨-, rfl⟩ := Prod.mk.inj (Option.some.inj h)
        exact .refl _
      · rename_i hchar
        split at h
        · split at h
          · contradiction
          · rename_i escaped more hescaped
            obtain ⟨⟨bytes', rest'⟩, hmore, hpair⟩ := Option.map_eq_some_iff.mp h
            obtain ⟨-, rfl⟩ := Prod.mk.inj hpair
            exact (within_of_escapedChar hescaped).trans (ih hmore)
        · obtain ⟨⟨bytes', rest'⟩, hmore, hpair⟩ := Option.map_eq_some_iff.mp h
          obtain ⟨-, rfl⟩ := Prod.mk.inj hpair
          refine (ih hmore).cons ?_
          rintro rfl
          exact hchar (by cases verbatim <;> decide)

theorem within_of_tagText {head name : Text}
    (h : tagText verbatim head cur = some (name, cur')) : Within cur.rest cur'.rest := by
  unfold tagText at h
  split at h
  · contradiction
  · rename_i bytes rest hbytes
    split at h
    · contradiction
    · split at h
      · contradiction
      · obtain ⟨-, rfl⟩ := Prod.mk.inj (Option.some.inj h)
        exact within_of_tagBytes hbytes

theorem within_tagHandle {c : Char} (hrest : cur.rest = c :: t) (hc : c ≠ '\n') :
    Within cur.rest (tagHandle cur).2.rest := by
  have hname : Within cur.rest (cur.rest.drop (1 + (t.takeWhile isNameChar).length)) := by
    rw [hrest, Nat.add_comm]
    exact (Within.run rfl t).cons hc
  unfold tagHandle
  simp only [Cursor.skip, hrest, List.drop_succ_cons, List.drop_zero] at hname ⊢
  split
  · rename_i hbang
    exact hname.trans (.next rfl hbang)
  · exact hname

theorem within_of_tagParts {handle name : Text} {c : Char} (hrest : cur.rest = c :: t)
    (hc : c ≠ '\n') (h : tagParts cur = some (handle, name, cur')) :
    Within cur.rest cur'.rest := by
  have hhandle := within_tagHandle hrest hc
  unfold tagParts at h
  split at h
  · rename_i hless
    have hopen : Within cur.rest (cur.skip 2).rest := by
      rw [hrest] at hless
      rw [show (cur.skip 2).rest = cur.rest.drop 2 from rfl, hrest]
      exact (Within.next rfl hless).cons hc
    split at h
    · contradiction
    · rename_i text behind htext
      split at h
      · rename_i hgreater
        obtain ⟨-, -, rfl⟩ := by simpa only [Option.some.injEq, Prod.mk.injEq] using h
        exact (hopen.trans (within_of_tagText htext)).trans (.next rfl hgreater)
      · contradiction
  · simp only at h
    split at h
    · obtain ⟨⟨text, behind⟩, htext, hpair⟩ := Option.map_eq_some_iff.mp h
      obtain ⟨-, -, rfl⟩ := by simpa only [Prod.mk.injEq] using hpair
      exact hhandle.trans (within_of_tagText htext)
    · split at h
      · contradiction
      all_goals
        rename_i htext
        obtain ⟨-, -, rfl⟩ := by simpa only [Option.some.injEq, Prod.mk.injEq] using h
        exact hhandle.trans (within_of_tagText htext)

theorem within_of_tagToken {flow : Bool} {handle name : Text} {c : Char}
    (hrest : cur.rest = c :: t) (hc : c ≠ '\n')
    (h : tagToken flow cur = some (handle, name, cur')) : Within cur.rest cur'.rest := by
  unfold tagToken at h
  split at h
  · contradiction
  · rename_i hparts
    split at h
    · obtain ⟨-, -, rfl⟩ := by simpa only [Option.some.injEq, Prod.mk.injEq] using h
      exact within_of_tagParts hrest hc hparts
    · contradiction

end Tags

section Directives

variable {cur cur' : Cursor} {t : Text} {d : Directive}

theorem within_of_versionNumber {n : Nat} (h : versionNumber cur = some (n, cur')) :
    Within cur.rest cur'.rest := by
  unfold versionNumber at h
  simp only at h
  split at h
  · contradiction
  · obtain ⟨m, -, hpair⟩ := Option.map_eq_some_iff.mp h
    obtain ⟨-, rfl⟩ := Prod.mk.inj hpair
    exact .run rfl cur.rest

theorem within_skipWhile {p : Char → Bool} (hp : p '\n' = false) (cur : Cursor) :
    Within cur.rest (cur.skipWhile p).rest :=
  .run hp cur.rest

theorem within_of_versionDirective (h : versionDirective cur = some (d, cur')) :
    Within cur.rest cur'.rest := by
  unfold versionDirective at h
  split at h
  · contradiction
  · rename_i major behind hmajor
    have hfront := (within_skipWhile rfl cur).trans (within_of_versionNumber hmajor)
    split at h
    · rename_i hdot
      obtain ⟨⟨minor, behind'⟩, hminor, hpair⟩ := Option.map_eq_some_iff.mp h
      obtain ⟨-, rfl⟩ := Prod.mk.inj hpair
      exact (hfront.trans (.next rfl hdot)).trans (within_of_versionNumber hminor)
    · contradiction

theorem within_of_tagDirective (h : tagDirective cur = some (d, cur')) :
    Within cur.rest cur'.rest := by
  unfold tagDirective at h
  simp only at h
  split at h
  · rename_i hbang
    have hhandle : Within (cur.skipWhile isGap).rest
        (tagHandle (cur.skipWhile isGap)).2.rest := by
      cases hrest : (cur.skipWhile isGap).rest with
      | nil =>
        rw [hrest] at hbang
        contradiction
      | cons c t =>
        rw [hrest] at hbang
        rw [← hrest]
        refine within_tagHandle hrest ?_
        rintro rfl
        contradiction
    have hfront := (within_skipWhile rfl cur).trans hhandle
    split at h
    · split at h
      · exact nomatch h
      · rename_i htext
        split at h
        · obtain ⟨-, rfl⟩ := Prod.mk.inj (Option.some.inj h)
          exact (hfront.trans (within_skipWhile rfl _)).trans (within_of_tagText htext)
        · exact nomatch h
    · exact nomatch h
  · exact nomatch h

theorem onLine_skipBreak (cur : Cursor) : OnLine cur.rest cur.skipBreak.rest := by
  unfold Cursor.skipBreak
  split
  · rename_i t hrest
    rw [hrest]
    exact ⟨['\r', '\n'], rfl, by decide⟩
  · rename_i c t _ hrest
    split
    · rw [hrest]
      exact ⟨[c], rfl, List.not_mem_nil⟩
    · exact .refl _
  · exact .refl _

theorem onLine_of_skipLine (h : cur.skipLine? = some cur') : OnLine cur.rest cur'.rest := by
  have hcomment : ∀ cur : Cursor,
      Within cur.rest (if nextIs (· == '#') cur.rest then cur.skipWhile fun x => !isBreak x
        else cur).rest := by
    intro cur
    split
    · exact within_skipWhile rfl cur
    · exact .refl _
  rw [Cursor.skipLine?, Option.ite_none_right_eq_some] at h
  obtain rfl := Option.some.inj h.2
  exact ((within_skipWhile rfl cur).trans (hcomment _)).onLine (onLine_skipBreak _)

theorem onLine_of_directive {c : Char} (hrest : cur.rest = c :: t) (hc : c ≠ '\n')
    (h : directive cur = some (d, cur')) : OnLine cur.rest cur'.rest := by
  have hname : Within cur.rest
      ((cur.skip 1).skipWhile isNameChar).rest := by
    refine .trans ?_ (within_skipWhile rfl _)
    rw [show (cur.skip 1).rest = cur.rest.drop 1 from rfl, hrest]
    exact (Within.refl t).cons hc
  unfold directive at h
  simp only at h
  split at h
  · contradiction
  · split at h
    · contradiction
    · rename_i value behind hvalue
      obtain ⟨cur'', hline, hpair⟩ := Option.map_eq_some_iff.mp h
      obtain ⟨-, rfl⟩ := Prod.mk.inj hpair
      refine (hname.trans ?_).onLine (onLine_of_skipLine hline)
      split at hvalue
      · exact within_of_versionDirective hvalue
      · split at hvalue
        · exact within_of_tagDirective hvalue
        · contradiction

end Directives

end SceneAudit.Yaml
