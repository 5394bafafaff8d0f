import SceneAudit.Proofs.Yaml.IdleTokens
import SceneAudit.Proofs.Yaml.LineReaders
import SceneAudit.Proofs.Yaml.Tokens

/-! # What a step adds

No step of a scanner takes a token back, and each adds the token that it cuts off. Of all steps,
only document markers, directives, names of anchors and tags add a token that says nothing, and what
they pass over lies on one line.
-/

namespace SceneAudit.Yaml

section Plain

variable {flow broken : Bool} {indent index line column : Nat} {acc text t : Text}
  {gap : Option Gap} {cur : Cursor}

theorem plainFrom_ne_nil (hacc : acc ≠ [])
    (h : plainFrom flow indent acc gap index line column t = some (text, cur, broken)) :
    text ≠ [] := by
  have hstop : ∀ {acc : Text} {cur' : Cursor} {broken' : Bool}, acc ≠ [] →
      some (acc.reverse, cur', broken') = some (text, cur, broken) → text ≠ [] := by
    rintro acc cur' broken' hacc heq rfl
    exact hacc (List.reverse_eq_nil_iff.mp (Prod.mk.inj (Option.some.inj heq)).1)
  fun_induction plainFrom flow indent acc gap index line column t with
  | case1 => exact hstop hacc h
  | case2 _ _ _ _ _ _ ih => exact ih hacc h
  | case3 _ _ _ _ _ _ _ _ _ ih => exact ih hacc h
  | case4 => contradiction
  | case5 _ _ _ _ _ _ _ _ _ _ _ ih => exact ih hacc h
  | case6 => exact hstop hacc h
  | case7 => contradiction
  | case8 => exact hstop hacc h
  | case9 _ _ _ _ _ _ _ _ _ _ _ _ _ ih => exact ih (List.cons_ne_nil _ _) h

theorem plainScalar_ne_nil {c : Char} (hstart : Scanner.startsPlain flow (c :: t) = true)
    (hrest : cur.rest = c :: t) {cur' : Cursor}
    (h : plainScalar flow indent cur = some (text, cur', broken)) : text ≠ [] := by
  have hc : isBreak c = false ∧ isGap c = false ∧ endsWord flow (c :: t) = false := by
    simp only [Scanner.startsPlain, Bool.or_eq_true, Bool.and_eq_true, Bool.not_eq_true',
      beq_iff_eq] at hstart
    rcases hstart with (⟨⟨hindicator, hgap⟩, hbreak⟩ | ⟨rfl, -⟩) | ⟨⟨rfl, hsign⟩, hend⟩
    · have hne : ∀ d, Scanner.isIndicator d = true → c ≠ d := by
        rintro d hd rfl
        rw [hindicator] at hd
        contradiction
      refine ⟨hbreak, hgap, ?_⟩
      simp [endsWord, isFlowSign, hne ':' rfl, hne ',' rfl, hne '[' rfl, hne ']' rfl,
        hne '\x7b' rfl, hne '\x7d' rfl]
    · refine ⟨by decide, by decide, ?_⟩
      simp [endsWord, isFlowSign]
    · rcases hsign with rfl | rfl
      · exact ⟨by decide, by decide, by simp [endsWord]⟩
      · exact ⟨by decide, by decide, by simp [endsWord, hend]⟩
  rw [plainScalar, hrest, plainFrom_cons hc.1, if_neg (by simp [hc.2.1])] at h
  simp only [Option.isSome_none, Bool.false_and, Bool.false_eq_true, if_false, hc.2.2] at h
  split at h
  · contradiction
  · exact plainFrom_ne_nil (List.cons_ne_nil _ _) h

end Plain

namespace Scanner

variable {s s' : Scanner} {t : Token}

def Adds (s s' : Scanner) (t : Token) : Prop :=
  t :: s.tokens ⊆ s'.tokens

theorem Adds.kept (h : Adds s s' t) : s.tokens ⊆ s'.tokens :=
  (List.cons_subset.mp h).2

theorem Adds.mem (h : Adds s s' t) : t ∈ s'.tokens :=
  (List.cons_subset.mp h).1

theorem adds_of_kept {s₁ : Scanner} (hkept : s.tokens ⊆ s₁.tokens) (h : Adds s₁ s' t) :
    Adds s s' t :=
  List.cons_subset.mpr ⟨h.mem, List.Subset.trans hkept h.kept⟩

theorem adds_insertAt (s : Scanner) (n : Nat) (t : Token) : Adds s (s.insertAt n t) t := by
  unfold Adds insertAt
  intro u hu
  rw [List.mem_cons] at hu
  rw [List.mem_append, List.mem_cons]
  rcases hu with rfl | hu
  · exact .inr (.inl rfl)
  · rw [← List.take_append_drop (s.count - n) s.tokens, List.mem_append] at hu
    exact hu.imp_right .inr

theorem kept_openBlock (s : Scanner) (column : Nat) (before : Option Nat) (t : Token) :
    s.tokens ⊆ (s.openBlock column before t).tokens := by
  unfold openBlock
  split
  · cases before with
    | none => exact List.subset_cons_self t s.tokens
    | some n => exact (adds_insertAt _ n t).kept
  · exact List.Subset.refl _

theorem closeFrom_keeps (column : Int) (s : Scanner) (outers : List Int) :
    s.tokens ⊆ (closeFrom column s outers).tokens ∧
      (closeFrom column s outers).cursor = s.cursor := by
  induction outers generalizing s with
  | nil => exact ⟨List.Subset.refl _, rfl⟩
  | cons outer outers ih =>
    unfold closeFrom
    split
    · obtain ⟨hkept, hcursor⟩ :=
        ih ({ s with indent := outer, outerIndents := outers }.emit .blockEnd)
      exact ⟨List.Subset.trans (List.subset_cons_self ..) hkept, hcursor⟩
    · exact ⟨List.Subset.refl _, rfl⟩

theorem closeBlocks_keeps (s : Scanner) (column : Int) :
    s.tokens ⊆ (s.closeBlocks column).tokens ∧ (s.closeBlocks column).cursor = s.cursor := by
  unfold closeBlocks
  split
  · exact ⟨List.Subset.refl _, rfl⟩
  · exact closeFrom_keeps column s s.outerIndents

theorem dropKey_eq (h : s.dropKey = some s') : s' = { s with possibleKey := none } := by
  unfold dropKey at h
  split at h
  · split at h
    · contradiction
    · exact (Option.some.inj h).symm
  · rename_i hkey
    rw [← Option.some.inj h, ← hkey]

theorem saveKey_eq (h : s.saveKey = some s') : ∃ key, s' = { s with possibleKey := key } := by
  unfold saveKey at h
  split at h
  · split at h
    · contradiction
    · rename_i dropped hdrop
      rw [dropKey_eq hdrop] at h
      exact ⟨_, (Option.some.inj h).symm⟩
  · exact ⟨s.possibleKey, (Option.some.inj h).symm⟩

theorem endBlocks_keeps (h : s.endBlocks = some s') :
    s.tokens ⊆ s'.tokens ∧ s'.cursor = s.cursor := by
  obtain ⟨s₁, hdrop, rfl⟩ := Option.map_eq_some_iff.mp h
  rw [dropKey_eq hdrop]
  exact closeBlocks_keeps s (-1)

theorem adds_of_scanDirective (h : s.scanDirective = some s') :
    ∃ d, Adds s s' (.directive d) ∧ directive s.cursor = some (d, s'.cursor) := by
  unfold scanDirective at h
  split at h
  · contradiction
  · rename_i s₁ hend
    obtain ⟨hkept, hcursor⟩ := endBlocks_keeps hend
    split at h
    · contradiction
    · rename_i d cur hread
      obtain rfl := Option.some.inj h
      exact ⟨d, adds_of_kept hkept (List.Subset.refl _), hcursor ▸ hread⟩

theorem adds_of_scanMarker (h : s.scanMarker t = some s') :
    Adds s s' t ∧ s'.cursor = s.cursor.skip 3 := by
  obtain ⟨s₁, hend, rfl⟩ := Option.map_eq_some_iff.mp h
  obtain ⟨hkept, hcursor⟩ := endBlocks_keeps hend
  exact ⟨adds_of_kept hkept (List.Subset.refl _), congrArg (·.skip 3) hcursor⟩

theorem adds_of_openFlow (h : s.openFlow t = some s') : Adds s s' t := by
  obtain ⟨s₁, hsave, rfl⟩ := Option.map_eq_some_iff.mp h
  obtain ⟨key, rfl⟩ := saveKey_eq hsave
  exact List.Subset.refl _

theorem adds_of_closeFlow (h : s.closeFlow t = some s') : Adds s s' t := by
  obtain ⟨s₁, hdrop, hclosed⟩ := Option.map_eq_some_iff.mp h
  rw [dropKey_eq hdrop] at hclosed
  simp only at hclosed
  split at hclosed <;>
  · rw [← hclosed]
    exact List.Subset.refl _

theorem adds_of_scanFlowEntry (h : s.scanFlowEntry = some s') : Adds s s' .flowEntry := by
  obtain ⟨s₁, hdrop, rfl⟩ := Option.map_eq_some_iff.mp h
  rw [dropKey_eq hdrop]
  exact List.Subset.refl _

theorem adds_of_scanBlockEntry (h : s.scanBlockEntry = some s') : Adds s s' .blockEntry := by
  unfold scanBlockEntry at h
  split at h
  · contradiction
  · obtain ⟨s₁, hdrop, rfl⟩ := Option.map_eq_some_iff.mp h
    rw [dropKey_eq hdrop]
    exact List.cons_subset_cons _ (kept_openBlock ..)

theorem adds_of_scanKey (h : s.scanKey = some s') : Adds s s' .key := by
  unfold scanKey at h
  split at h
  · contradiction
  · obtain ⟨s₁, hdrop, rfl⟩ := Option.map_eq_some_iff.mp h
    rw [dropKey_eq hdrop]
    exact List.cons_subset_cons _ (kept_openBlock ..)

theorem adds_of_scanValue (h : s.scanValue = some s') : Adds s s' .value := by
  have hexplicit : ∀ s₁, scanValue.explicit s = some s₁ → Adds s s₁ .value := by
    intro s₁ h
    unfold scanValue.explicit at h
    split at h
    · contradiction
    · rw [← Option.some.inj h]
      exact List.cons_subset_cons _ (kept_openBlock { s with possibleKey := none } ..)
  unfold scanValue at h
  split at h
  · rename_i k hkey
    split at h
    · rw [← Option.some.inj h]
      exact List.cons_subset_cons _
        (List.Subset.trans (adds_insertAt s k.tokensBefore .key).kept (kept_openBlock ..))
    · split at h
      · contradiction
      · exact hexplicit s' h
  · exact hexplicit s' h

theorem adds_of_scanKeyed {read : Cursor → Option (Token × Cursor)}
    (h : s.scanKeyed read = some s') : ∃ t, Adds s s' t ∧ read s.cursor = some (t, s'.cursor) := by
  unfold scanKeyed at h
  split at h
  · contradiction
  · rename_i s₁ hsave
    obtain ⟨key, rfl⟩ := saveKey_eq hsave
    split at h
    · contradiction
    · rename_i t cur hread
      rw [← Option.some.inj h]
      exact ⟨t, List.Subset.refl _, hread⟩

theorem adds_of_scanKeyed_map {β : Type} {read : Cursor → Option (β × Cursor)} {f : β → Token}
    (h : (s.scanKeyed fun cur => (read cur).map fun p => (f p.1, p.2)) = some s') :
    ∃ b, Adds s s' (f b) ∧ read s.cursor = some (b, s'.cursor) := by
  obtain ⟨t, hadds, hread⟩ := adds_of_scanKeyed h
  obtain ⟨⟨b, cur⟩, hb, hpair⟩ := Option.map_eq_some_iff.mp hread
  obtain ⟨rfl, rfl⟩ := Prod.mk.inj hpair
  exact ⟨b, hadds, hb⟩

theorem adds_of_scanBlockScalar {literal : Bool} (h : s.scanBlockScalar literal = some s') :
    ∃ t, Adds s s' t ∧ t.isIdle = false := by
  unfold scanBlockScalar at h
  split at h
  · contradiction
  · rename_i s₁ hdrop
    rw [dropKey_eq hdrop] at h
    split at h
    · contradiction
    · rename_i text cur hread
      rw [← Option.some.inj h]
      exact ⟨_, List.Subset.refl _, by cases literal <;> rfl⟩

theorem adds_of_scanPlain (h : s.scanPlain = some s') :
    ∃ text bound broken, Adds s s' (.scalar .plain text) ∧
      plainScalar s.inFlow bound s.cursor = some (text, s'.cursor, broken) := by
  unfold scanPlain at h
  split at h
  · contradiction
  · rename_i s₁ hsave
    obtain ⟨key, rfl⟩ := saveKey_eq hsave
    split at h
    · contradiction
    · rename_i text cur broken hread
      rw [← Option.some.inj h]
      exact ⟨text, _, broken, List.Subset.refl _, hread⟩

/-- A step adds a token that says something, or it passes over a document marker, or over a
directive or a name on one line. -/
theorem scanToken_cases (h : s.scanToken = some s') :
    ∃ t, Adds s s' t ∧ (t.isIdle = false ∨
      (∃ m, (m = '-' ∨ m = '.') ∧ atMarker m s.cursor.rest = true ∧
        s'.cursor = s.cursor.skip 3) ∨
      ∃ c r, (c = '%' ∨ c = '&' ∨ c = '!') ∧ s.cursor.rest = c :: r ∧
        OnLine s.cursor.rest s'.cursor.rest) := by
  obtain ⟨c, r, hrest⟩ := List.exists_cons_of_ne_nil
    (show s.cursor.rest ≠ [] by
      intro hnil
      rw [scanToken_nil hnil] at h
      contradiction)
  have hatMarker : ∀ m, (s.cursor.column == 0 && atMarker m (c :: r)) = true →
      atMarker m s.cursor.rest = true := by
    intro m hm
    rw [hrest]
    exact (Bool.and_eq_true_iff.mp hm).2
  rw [scanToken, hrest] at h
  dsimp only at h
  obtain ⟨hsign, h⟩ | ⟨-, h⟩ := ite_eq_iff.mp h
  · have hc : c = '%' := eq_of_beq (Bool.and_eq_true_iff.mp hsign).2
    obtain ⟨d, hadds, hread⟩ := adds_of_scanDirective h
    exact ⟨_, hadds, .inr (.inr ⟨c, r, .inl hc, hrest,
      onLine_of_directive hrest (by rw [hc]; decide) hread⟩)⟩
  obtain ⟨hmarker, h⟩ | ⟨-, h⟩ := ite_eq_iff.mp h
  · obtain ⟨hadds, hcursor⟩ := adds_of_scanMarker h
    exact ⟨_, hadds, .inr (.inl ⟨'-', .inl rfl, hatMarker '-' hmarker, hcursor⟩)⟩
  obtain ⟨hmarker, h⟩ | ⟨-, h⟩ := ite_eq_iff.mp h
  · obtain ⟨hadds, hcursor⟩ := adds_of_scanMarker h
    exact ⟨_, hadds, .inr (.inl ⟨'.', .inr rfl, hatMarker '.' hmarker, hcursor⟩)⟩
  obtain ⟨-, h⟩ | ⟨-, h⟩ := ite_eq_iff.mp h
  · exact ⟨_, adds_of_openFlow h, .inl rfl⟩
  obtain ⟨-, h⟩ | ⟨-, h⟩ := ite_eq_iff.mp h
  · exact ⟨_, adds_of_openFlow h, .inl rfl⟩
  obtain ⟨-, h⟩ | ⟨-, h⟩ := ite_eq_iff.mp h
  · exact ⟨_, adds_of_closeFlow h, .inl rfl⟩
  obtain ⟨-, h⟩ | ⟨-, h⟩ := ite_eq_iff.mp h
  · exact ⟨_, adds_of_closeFlow h, .inl rfl⟩
  obtain ⟨-, h⟩ | ⟨-, h⟩ := ite_eq_iff.mp h
  · exact ⟨_, adds_of_scanFlowEntry h, .inl rfl⟩
  obtain ⟨-, h⟩ | ⟨-, h⟩ := ite_eq_iff.mp h
  · exact ⟨_, adds_of_scanBlockEntry h, .inl rfl⟩
  obtain ⟨-, h⟩ | ⟨-, h⟩ := ite_eq_iff.mp h
  · exact ⟨_, adds_of_scanKey h, .inl rfl⟩
  obtain ⟨-, h⟩ | ⟨-, h⟩ := ite_eq_iff.mp h
  · exact ⟨_, adds_of_scanValue h, .inl rfl⟩
  obtain ⟨-, h⟩ | ⟨-, h⟩ := ite_eq_iff.mp h
  · obtain ⟨name, hadds, -⟩ := adds_of_scanKeyed_map (f := .alias) h
    exact ⟨_, hadds, .inl rfl⟩
  obtain ⟨hsign, h⟩ | ⟨-, h⟩ := ite_eq_iff.mp h
  · have hc : c = '&' := eq_of_beq hsign
    obtain ⟨name, hadds, hname⟩ := adds_of_scanKeyed_map (f := .anchor) h
    exact ⟨_, hadds, .inr (.inr ⟨c, r, .inr (.inl hc), hrest,
      (within_of_anchorName hrest (by rw [hc]; decide) hname).onLine (.refl _)⟩)⟩
  obtain ⟨hsign, h⟩ | ⟨-, h⟩ := ite_eq_iff.mp h
  · have hc : c = '!' := eq_of_beq hsign
    obtain ⟨t, hadds, hread⟩ := adds_of_scanKeyed h
    obtain ⟨⟨handle, name, cur⟩, htag, hpair⟩ := Option.map_eq_some_iff.mp hread
    obtain ⟨rfl, rfl⟩ := Prod.mk.inj hpair
    exact ⟨_, hadds, .inr (.inr ⟨c, r, .inr (.inr hc), hrest,
      (within_of_tagToken hrest (by rw [hc]; decide) htag).onLine (.refl _)⟩)⟩
  obtain ⟨-, h⟩ | ⟨-, h⟩ := ite_eq_iff.mp h
  · obtain ⟨t, hadds, hsays⟩ := adds_of_scanBlockScalar h
    exact ⟨t, hadds, .inl hsays⟩
  obtain ⟨-, h⟩ | ⟨-, h⟩ := ite_eq_iff.mp h
  · obtain ⟨t, hadds, hsays⟩ := adds_of_scanBlockScalar h
    exact ⟨t, hadds, .inl hsays⟩
  obtain ⟨-, h⟩ | ⟨-, h⟩ := ite_eq_iff.mp h
  · obtain ⟨text, hadds, -⟩ := adds_of_scanKeyed_map (f := .scalar .singleQuoted) h
    exact ⟨_, hadds, .inl rfl⟩
  obtain ⟨-, h⟩ | ⟨-, h⟩ := ite_eq_iff.mp h
  · obtain ⟨text, hadds, -⟩ := adds_of_scanKeyed_map (f := .scalar .doubleQuoted) h
    exact ⟨_, hadds, .inl rfl⟩
  obtain ⟨hstart, h⟩ | ⟨-, h⟩ := ite_eq_iff.mp h
  · obtain ⟨text, bound, broken, hadds, hread⟩ := adds_of_scanPlain h
    refine ⟨_, hadds, .inl ?_⟩
    cases text with
    | nil => exact absurd rfl (plainScalar_ne_nil hstart hrest hread)
    | cons => rfl
  · contradiction

end Scanner

end SceneAudit.Yaml
