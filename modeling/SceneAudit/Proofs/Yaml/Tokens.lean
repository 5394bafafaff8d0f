import SceneAudit.Proofs.Yaml.Scanning

/-! # Steps over single tokens

What one step does at the beginning of a plain scalar, at a colon and at the signs of a flow
collection.
-/

namespace SceneAudit.Yaml

/-- A text in front of which a plain scalar of quiet characters begins. -/
def startsWord : Text → Bool
  | [] => false
  | c :: t => isQuiet c && (!Scanner.isIndicator c || (c == '-' && nextIs isQuiet t))

/-- Text that is a plain scalar as it stands: quiet characters with spaces only between them. -/
structure IsPlain (t : Text) : Prop where
  start : startsWord t = true
  chars : ∀ c ∈ t, isQuiet c = true ∨ c = ' '
  last : t.getLast? ≠ some ' '

/-- Text that is a key as it stands: a plain scalar without spaces that is not too long. -/
structure IsKey (t : Text) : Prop where
  start : startsWord t = true
  chars : ∀ c ∈ t, isQuiet c = true
  short : t.length ≤ 1024

instance : DecidablePred IsPlain := fun t =>
  decidable_of_iff (startsWord t = true ∧ (∀ c ∈ t, isQuiet c = true ∨ c = ' ') ∧
    t.getLast? ≠ some ' ') ⟨fun h => ⟨h.1, h.2.1, h.2.2⟩, fun h => ⟨h.1, h.2, h.3⟩⟩

instance : DecidablePred IsKey := fun t =>
  decidable_of_iff (startsWord t = true ∧ (∀ c ∈ t, isQuiet c = true) ∧ t.length ≤ 1024)
    ⟨fun h => ⟨h.1, h.2.1, h.2.2⟩, fun h => ⟨h.1, h.2, h.3⟩⟩

theorem isQuiet_of_startsWord {c : Char} {t : Text} (h : startsWord (c :: t) = true) :
    isQuiet c = true := by
  simp only [startsWord, Bool.and_eq_true] at h
  exact h.1

theorem not_atWordEnd_of_quiet {t : Text} (h : nextIs isQuiet t = true) : atWordEnd t = false := by
  cases t with
  | nil => contradiction
  | cons c t => simp [atWordEnd, isGap_of_isQuiet h, isBreak_of_isQuiet h]

theorem startsWord_append {t : Text} (h : startsWord t = true) (rest : Text) :
    startsWord (t ++ rest) = true := by
  cases t with
  | nil => contradiction
  | cons c t =>
    cases t with
    | nil => simp_all [startsWord, nextIs]
    | cons d t => exact h

theorem IsPlain.ne_nil {t : Text} (h : IsPlain t) : t ≠ [] := by
  rintro rfl
  exact absurd h.start (by decide)

theorem IsKey.isPlain {t : Text} (h : IsKey t) : IsPlain t where
  start := h.start
  chars := fun c hc => Or.inl (h.chars c hc)
  last := fun hlast => by
    have hspace := h.chars ' ' (List.mem_of_getLast? hlast)
    exact absurd hspace (by decide)

theorem IsKey.head {t : Text} (h : IsKey t) : ∃ c u, t = c :: u ∧ isQuiet c = true := by
  obtain ⟨c, u, rfl⟩ := List.exists_cons_of_ne_nil h.isPlain.ne_nil
  exact ⟨c, u, rfl, h.chars c List.mem_cons_self⟩

theorem atMarker_of_ne {m c : Char} (h : c ≠ m) (t : Text) : atMarker m (c :: t) = false := by
  rcases t with _ | ⟨x, _ | ⟨y, t⟩⟩ <;> simp [atMarker, h]

theorem IsKey.not_atMarker {t : Text} (h : IsKey t) {m : Char} (hm : m ≠ ':') (v : Text) :
    atMarker m (t ++ ':' :: v) = false := by
  have hcolon : ∀ v : Text, atWordEnd (':' :: v) = false := fun _ => rfl
  have hne : (':' == m) = false := by simpa using hm.symm
  rcases t with _ | ⟨x, _ | ⟨y, _ | ⟨z, _ | ⟨w, t⟩⟩⟩⟩
  · exact atMarker_of_ne hm.symm v
  · rcases v with _ | ⟨y, v⟩ <;> simp [atMarker, hne]
  · simp [atMarker, hne]
  · simp [atMarker, hcolon]
  · have hw : isQuiet w = true := h.chars w (by simp)
    simp [atMarker, atWordEnd, isGap_of_isQuiet hw, isBreak_of_isQuiet hw]

namespace Scanner

theorem scanToken_plain {s : Scanner} {t : Text} (hrest : s.cursor.rest = t)
    (hstart : startsWord t = true)
    (hmark : s.cursor.column = 0 → atMarker '-' t = false ∧ atMarker '.' t = false) :
    s.scanToken = s.scanPlain := by
  obtain ⟨c, t, rfl⟩ := List.exists_cons_of_ne_nil (show t ≠ [] by rintro rfl; contradiction)
  have hquiet := isQuiet_of_startsWord hstart
  have hmarker : ∀ m, (m = '-' ∨ m = '.') →
      (s.cursor.column == 0 && atMarker m (c :: t)) = false := by
    intro m hm
    by_cases hcol : s.cursor.column = 0
    · rcases hm with rfl | rfl
      · rw [(hmark hcol).1, Bool.and_false]
      · rw [(hmark hcol).2, Bool.and_false]
    · rw [show (s.cursor.column == 0) = false by simpa using hcol, Bool.false_and]
  have hdash := hmarker '-' (Or.inl rfl)
  have hdot := hmarker '.' (Or.inr rfl)
  rw [scanToken, hrest]
  by_cases hind : isIndicator c = true
  · simp only [startsWord, hind, Bool.not_true, Bool.false_or, Bool.and_eq_true, beq_iff_eq]
      at hstart
    obtain ⟨-, rfl, hnext⟩ := hstart
    have hend := not_atWordEnd_of_quiet hnext
    have hgap : nextIs isGap t = false := by
      cases t with
      | nil => rfl
      | cons d t => exact isGap_of_isQuiet hnext
    simp [hdash, hdot, hend, startsPlain, hgap]
  · have hplain : startsPlain s.inFlow (c :: t) = true := by
      simp [startsPlain, hind, isGap_of_isQuiet hquiet, isBreak_of_isQuiet hquiet]
    have hne : ∀ d, isIndicator d = true → c ≠ d := by
      rintro d hd rfl
      exact hind hd
    simp [hdash, hdot, hplain, hne '%' rfl, hne '[' rfl, hne '\x7b' rfl, hne ']' rfl,
      hne '\x7d' rfl, hne ',' rfl, hne '-' rfl, hne '?' rfl, hne ':' rfl, hne '*' rfl, hne '&' rfl,
      hne '!' rfl, hne '|' rfl, hne '>' rfl, hne '\'' rfl, hne '"' rfl]

theorem scanToken_colon {s : Scanner} {t : Text} (hrest : s.cursor.rest = ':' :: t)
    (h : s.inFlow = true ∨ atWordEnd t = true) : s.scanToken = s.scanValue := by
  rw [scanToken, hrest]
  simp [atMarker_of_ne (show ':' ≠ '-' by decide), atMarker_of_ne (show ':' ≠ '.' by decide), h]

section Keys

variable {key v : Text} (hkey : IsKey key) (hv : atWordEnd v = true) {index line : Nat}
  {indent : Int} {outer : List Int} {tokens : List Token}

include hkey hv

theorem plainScalar_key (flow : Bool) (bound index line column : Nat) :
    plainScalar flow bound ⟨key ++ ':' :: v, index, line, column⟩ =
      some (key, ⟨':' :: v, index + key.length, line, column + key.length⟩, false) := by
  rw [plainScalar, plainFrom_word hkey.chars, plainFrom_colon hv]
  simp

theorem next_key {k : Nat} (hindent : indent ≤ k) :
    (inBlock ⟨List.replicate k ' ' ++ (key ++ ':' :: v), index, line, 0⟩ indent outer true
        tokens).next =
      some ⟨⟨':' :: v, index + k + key.length, line, k + key.length⟩, indent, outer,
        some ⟨indent == k, tokens.length, index + k, line, k⟩, [], false,
        .scalar .plain key :: tokens, tokens.length + 1⟩ := by
  have hscan : (inBlock ⟨key ++ ':' :: v, index + k, line, k⟩ indent outer true tokens).scanToken =
      (inBlock ⟨key ++ ':' :: v, index + k, line, k⟩ indent outer true tokens).scanPlain :=
    scanToken_plain rfl (startsWord_append hkey.start _) fun _ =>
      ⟨hkey.not_atMarker (by decide) v, hkey.not_atMarker (by decide) v⟩
  obtain ⟨c, t, hc, hquiet⟩ := hkey.head
  have hsolid : isSolid c = true := isSolid_of_isQuiet hquiet
  have hsettle : (inBlock ⟨List.replicate k ' ' ++ (key ++ ':' :: v), index, line, 0⟩ indent outer
      true tokens).settle = inBlock ⟨key ++ ':' :: v, index + k, line, k⟩ indent outer true
        tokens := by
    rw [hc, List.cons_append, settle_inBlock k hsolid (by omega), Nat.zero_add]
  rw [next, hsettle, hscan, scanPlain]
  simp only [saveKey, inBlock, dropKey, if_true, inFlow, List.isEmpty_nil, Bool.not_true,
    Bool.not_false, Bool.true_and, plainScalar_key hkey hv]
  rfl

theorem next_colon {k : Nat} (hindent : indent ≤ k) (index : Nat) :
    next ⟨⟨':' :: v, index + key.length, line, k + key.length⟩, indent, outer,
        some ⟨indent == k, tokens.length, index, line, k⟩, [], false,
        .scalar .plain key :: tokens, tokens.length + 1⟩ =
      some (if indent < k then
          inBlock ⟨v, index + key.length + 1, line, k + key.length + 1⟩ k (indent :: outer) false
            (.value :: .scalar .plain key :: .key :: .blockMappingStart :: tokens)
        else
          inBlock ⟨v, index + key.length + 1, line, k + key.length + 1⟩ indent outer false
            (.value :: .scalar .plain key :: .key :: tokens)) := by
  have hshort := hkey.short
  have hreaches : keyReaches ⟨indent == k, tokens.length, index, line, k⟩
      ⟨':' :: v, index + key.length, line, k + key.length⟩ = true := by
    simp only [keyReaches, beq_self_eq_true, Bool.true_and, decide_eq_true_eq]
    omega
  rw [next, settle_of_solid rfl (by decide) (Or.inr (by simp only; omega)),
    scanToken_colon rfl (Or.inr hv), scanValue]
  simp only [hreaches, if_true, insertAt, Nat.add_sub_cancel_left, List.take_succ_cons,
    List.take_zero, List.drop_succ_cons, List.drop_zero, openBlock, inFlow, List.isEmpty_nil,
    Bool.not_true, Bool.not_false, Bool.true_and, decide_eq_true_eq]
  split
  · simp only [Nat.add_assoc, Nat.add_sub_cancel_left]
    rfl
  · rfl

theorem next_flowKey (n : Nat) {column : Nat} (hcol : 0 < column) :
    (inFlowOf ⟨List.replicate n ' ' ++ (key ++ ':' :: v), index, line, column⟩ indent outer true
        tokens).next =
      some ⟨⟨':' :: v, index + n + key.length, line, column + n + key.length⟩, indent, outer,
        some ⟨false, tokens.length, index + n, line, column + n⟩, [none], false,
        .scalar .plain key :: tokens, tokens.length + 1⟩ := by
  have hscan : (inFlowOf ⟨key ++ ':' :: v, index + n, line, column + n⟩ indent outer true
      tokens).scanToken = (inFlowOf ⟨key ++ ':' :: v, index + n, line, column + n⟩ indent outer true
        tokens).scanPlain :=
    scanToken_plain rfl (startsWord_append hkey.start _) fun hzero => by
      simp only [inFlowOf] at hzero
      omega
  obtain ⟨c, t, hc, hquiet⟩ := hkey.head
  have hsolid : isSolid c = true := isSolid_of_isQuiet hquiet
  have hsettle : (inFlowOf ⟨List.replicate n ' ' ++ (key ++ ':' :: v), index, line, column⟩ indent
      outer true tokens).settle = inFlowOf ⟨key ++ ':' :: v, index + n, line, column + n⟩ indent
        outer true tokens := by
    rw [hc, List.cons_append, settle_inFlowOf n hsolid]
  rw [next, hsettle, hscan, scanPlain]
  simp only [saveKey, inFlowOf, dropKey, if_true, inFlow, List.isEmpty_cons, Bool.not_false,
    Bool.not_true, Bool.false_and, plainScalar_key hkey hv]
  rfl

theorem next_flowColon {index column : Nat} :
    next ⟨⟨':' :: v, index + key.length, line, column + key.length⟩, indent, outer,
        some ⟨false, tokens.length, index, line, column⟩, [none], false,
        .scalar .plain key :: tokens, tokens.length + 1⟩ =
      some (inFlowOf ⟨v, index + key.length + 1, line, column + key.length + 1⟩ indent outer false
        (.value :: .scalar .plain key :: .key :: tokens)) := by
  have hshort := hkey.short
  have hreaches : keyReaches ⟨false, tokens.length, index, line, column⟩
      ⟨':' :: v, index + key.length, line, column + key.length⟩ = true := by
    simp only [keyReaches, beq_self_eq_true, Bool.true_and, decide_eq_true_eq]
    omega
  rw [next, settle_of_solid rfl (by decide) (Or.inl rfl), scanToken_colon rfl (Or.inr hv),
    scanValue]
  simp only [hreaches, if_true, insertAt, Nat.add_sub_cancel_left]
  rfl

end Keys

section Flow

variable {c : Char} {rest : Text} {index line column : Nat} {indent : Int} {outer : List Int}
  {allowed : Bool} {tokens : List Token}

theorem next_openFlow {token : Token} (hc : c = '[' ∧ token = .flowSequenceStart ∨
      c = '\x7b' ∧ token = .flowMappingStart) (hindent : indent ≤ column) :
    (inBlock ⟨' ' :: c :: rest, index, line, column⟩ indent outer false tokens).next =
      some (inFlowOf ⟨rest, index + 1 + 1, line, column + 1 + 1⟩ indent outer true
        (token :: tokens)) := by
  have hsolid : isSolid c = true := by
    rcases hc with ⟨rfl, -⟩ | ⟨rfl, -⟩ <;> decide
  have hsettle : (inBlock ⟨' ' :: c :: rest, index, line, column⟩ indent outer false
      tokens).settle = inBlock ⟨c :: rest, index + 1, line, column + 1⟩ indent outer false
        tokens :=
    settle_inBlock 1 hsolid (by omega)
  rw [next, hsettle, scanToken]
  rcases hc with ⟨rfl, rfl⟩ | ⟨rfl, rfl⟩ <;> simp [inBlock] <;> rfl

theorem next_comma :
    (inFlowOf ⟨',' :: rest, index, line, column⟩ indent outer allowed tokens).next =
      some (inFlowOf ⟨rest, index + 1, line, column + 1⟩ indent outer true
        (.flowEntry :: tokens)) := by
  rw [next, settle_of_solid rfl (by decide) (Or.inl rfl), scanToken]
  simp [inFlowOf, atMarker_of_ne (show ',' ≠ '-' by decide),
    atMarker_of_ne (show ',' ≠ '.' by decide)]
  rfl

theorem next_closeFlow {token : Token} (hc : c = ']' ∧ token = .flowSequenceEnd ∨
      c = '\x7d' ∧ token = .flowMappingEnd) :
    (inFlowOf ⟨c :: rest, index, line, column⟩ indent outer allowed tokens).next =
      some (inBlock ⟨rest, index + 1, line, column + 1⟩ indent outer false (token :: tokens)) := by
  have hsolid : isSolid c = true := by
    rcases hc with ⟨rfl, -⟩ | ⟨rfl, -⟩ <;> decide
  rw [next, settle_of_solid rfl hsolid (Or.inl rfl), scanToken]
  rcases hc with ⟨rfl, rfl⟩ | ⟨rfl, rfl⟩
  · simp [inFlowOf, atMarker_of_ne (show ']' ≠ '-' by decide),
      atMarker_of_ne (show ']' ≠ '.' by decide)]
    rfl
  · simp [inFlowOf, atMarker_of_ne (show '\x7d' ≠ '-' by decide),
      atMarker_of_ne (show '\x7d' ≠ '.' by decide)]
    rfl

end Flow

end Scanner

end SceneAudit.Yaml
