import SceneAudit.Proofs.Yaml.Additions

/-! # Texts that say something

Some texts begin with a token that says something, whatever the scanner has read before. Lines in
front of such a text may hold directives, markers and names, and comments that end where the scanner
sees a line end, but nothing that runs past a line feed without saying something. So the scanner
comes to the text or adds such a token before.
-/

namespace SceneAudit.Yaml

/-- A character that white space passes over, a byte order mark at the beginning of a line. -/
def isMargin (c : Char) : Bool :=
  isGap c || c == '\n' || c.toNat == 0xFEFF

/-- White space and whole lines: behind any other character there is a line feed. -/
def Margin : Text → Prop
  | [] => True
  | c :: t => (isMargin c = true ∨ '\n' ∈ t) ∧ Margin t

/-- A text that begins with a token that says something. -/
structure Speaks (t : Text) : Prop where
  head : nextIs (fun c => Scanner.isSolid c && c != '%' && c != '&' && c != '!') t = true
  marker : ∀ m, (m = '-' ∨ m = '.') → atMarker m t = false

/-- A text that begins with such a token, or with a document marker and then such a token on the
same line. -/
def Opens (t : Text) : Prop :=
  Speaks t ∨ ∃ g u, t = '-' :: '-' :: '-' :: (g ++ u) ∧ (∀ c ∈ g, isGap c = true) ∧ Speaks u

/-- A text with such a text at the beginning of a line, gaps aside. -/
def Pending (t : Text) : Prop :=
  ∃ w u, t = w ++ u ∧ Margin w ∧ Opens u

section Margins

variable {t u w rest : Text} {c : Char}

theorem Margin.of_append {p : Text} (h : Margin (p ++ w)) : Margin w := by
  induction p with
  | nil => exact h
  | cons c p ih => exact ih h.2

theorem margin_gaps {g : Text} (hg : ∀ c ∈ g, isGap c = true) (hw : Margin w) :
    Margin (g ++ w) := by
  induction g with
  | nil => exact hw
  | cons c g ih =>
    rw [List.forall_mem_cons] at hg
    exact ⟨.inl (by simp [isMargin, hg.1]), ih hg.2⟩

theorem margin_feed (p : Text) (hw : Margin w) : Margin (p ++ '\n' :: w) := by
  induction p with
  | nil => exact ⟨.inl rfl, hw⟩
  | cons c p ih => exact ⟨.inr (by simp), ih⟩

theorem Speaks.exists_head (h : Speaks t) :
    ∃ c r, t = c :: r ∧ Scanner.isSolid c = true ∧ c ≠ '%' ∧ c ≠ '&' ∧ c ≠ '!' := by
  cases t with
  | nil => exact absurd h.head (by decide)
  | cons c r =>
    refine ⟨c, r, rfl, ?_⟩
    simpa only [nextIs, Bool.and_eq_true, bne_iff_ne, and_assoc] using h.head

theorem Opens.exists_head (h : Opens t) :
    ∃ c r, t = c :: r ∧ Scanner.isSolid c = true ∧ c ≠ '%' ∧ c ≠ '&' ∧ c ≠ '!' := by
  obtain h | ⟨g, u, rfl, -, -⟩ := h
  · exact h.exists_head
  · exact ⟨'-', _, rfl, by decide⟩

theorem pending_of_onLine (hw : Margin w) (hfeed : '\n' ∈ w) (hu : Opens u)
    (h : OnLine (w ++ u) rest) : Pending rest := by
  obtain ⟨p, hcut, hp⟩ := h
  obtain ⟨v, rfl, rfl⟩ | ⟨w', rfl, rfl⟩ := List.append_eq_append_iff.mp hcut
  · cases v with
    | nil => exact ⟨[], rest, rfl, trivial, hu⟩
    | cons c v =>
      rw [List.dropLast_append_of_ne_nil (List.cons_ne_nil c v)] at hp
      exact absurd (List.mem_append_left _ hfeed) hp
  · exact ⟨w', u, rfl, hw.of_append, hu⟩

end Margins

namespace Scanner

variable {s s' : Scanner} {tokens : List Token}

theorem not_space_of_isSolid {c : Char} (h : isSolid c = true) :
    isBreak c = false ∧ isGap c = false ∧ c ≠ '#' ∧ c.toNat ≠ 0xFEFF := by
  obtain ⟨hblank, hhash, hmark⟩ := isSolid_iff.mp h
  refine ⟨?_, ?_, hhash, hmark⟩
  · by_contra hbreak
    rw [isBlank_of_isBreak (Bool.of_not_eq_false hbreak)] at hblank
    contradiction
  · by_contra hgap
    rw [isBlank_of_isGap (Bool.of_not_eq_false hgap)] at hblank
    contradiction

theorem spaceFrom_margin {flow allowed comment : Bool} {index line column : Nat} {w u : Text}
    (hw : Margin w) (hu : Opens u) (hcomment : comment = true → '\n' ∈ w) :
    ∃ w', Margin w' ∧
      (spaceFrom flow allowed comment index line column (w ++ u)).1.rest = w' ++ u := by
  obtain ⟨d, v, hd, hsolid, -⟩ := hu.exists_head
  obtain ⟨hbreak, hgap, hhash, hmark⟩ := not_space_of_isSolid hsolid
  have hmargin : ∀ {w t : Text} {c : Char}, w ++ u = c :: t → (c ≠ d ∨ w ≠ []) →
      ∃ w', w = c :: w' ∧ w' ++ u = t := by
    intro w t c htext hne
    cases w with
    | nil =>
      rw [hd] at htext
      exact absurd (List.cons.inj htext).1.symm (hne.resolve_right (absurd rfl))
    | cons x w =>
      obtain ⟨rfl, hrest⟩ := List.cons.inj htext
      exact ⟨w, rfl, hrest⟩
  generalize htext : w ++ u = t
  fun_induction spaceFrom flow allowed comment index line column t generalizing w with
  | case1 =>
    rw [hd] at htext
    simp at htext
  | case2 _ _ _ _ _ t ih =>
    obtain ⟨w, rfl, hrest⟩ := hmargin htext (.inl (by rintro rfl; contradiction))
    obtain _ | ⟨y, w⟩ := w
    · exact absurd hw.1 (by decide)
    · exact ih hw.2.2 nofun (List.cons.inj hrest).2
  | case3 _ _ _ _ _ c t _ hc ih =>
    obtain ⟨w, rfl, hrest⟩ := hmargin htext (.inl (by rintro rfl; simp [hbreak] at hc))
    exact ih hw.2 nofun hrest
  | case4 _ comment _ _ _ c t _ hc hpass ih =>
    rw [Bool.or_eq_true, beq_iff_eq] at hpass
    obtain ⟨w, rfl, hrest⟩ := hmargin htext (by
      rcases hpass with hpass | rfl
      · exact .inr (List.ne_nil_of_mem (hcomment hpass))
      · exact .inl hhash.symm)
    refine ih hw.2 (fun _ => ?_) hrest
    rcases hpass with hpass | rfl
    · refine (List.mem_cons.mp (hcomment hpass)).resolve_left ?_
      rintro rfl
      exact hc rfl
    · exact hw.1.resolve_left (by decide)
  | case5 _ _ _ _ _ c t _ hc _ hpass ih =>
    have hne : c ≠ d := by
      rintro rfl
      simp only [Bool.or_eq_true, Bool.and_eq_true, beq_iff_eq] at hpass
      rcases hpass with (rfl | ⟨rfl, -⟩) | ⟨-, hpass⟩ <;> contradiction
    obtain ⟨w, rfl, hrest⟩ := hmargin htext (.inl hne)
    exact ih hw.2 nofun hrest
  | case6 => exact ⟨w, hw, htext.symm⟩

theorem pending_skipSpace (h : Pending s.cursor.rest) : Pending s.skipSpace.cursor.rest := by
  obtain ⟨w, u, hrest, hw, hu⟩ := h
  obtain ⟨w', hw', hspace⟩ := @spaceFrom_margin s.inFlow s.keyAllowed false s.cursor.index
    s.cursor.line s.cursor.column w u hw hu nofun
  refine ⟨w', u, ?_, hw', hu⟩
  rw [← hspace, ← hrest]
  rfl

theorem exists_of_atMarker {m : Char} {t : Text} (h : atMarker m t = true) :
    ∃ r, t = m :: m :: m :: r ∧ atWordEnd r = true := by
  unfold atMarker at h
  split at h
  · simp only [Bool.and_eq_true, beq_iff_eq] at h
    obtain ⟨⟨⟨rfl, rfl⟩, rfl⟩, hend⟩ := h
    exact ⟨_, rfl, hend⟩
  · contradiction

theorem pending_scanToken (h : s.scanToken = some s') (hpending : Pending s.cursor.rest) :
    ∃ t, Adds s s' t ∧ (t.isIdle = false ∨ Pending s'.cursor.rest) := by
  obtain ⟨t, hadds, hcases⟩ := scanToken_cases h
  refine ⟨t, hadds, hcases.imp_right fun hcases => ?_⟩
  obtain ⟨w, u, hrest, hw, hu⟩ := hpending
  cases w with
  | nil =>
    obtain ⟨d, v, hd, -, hpercent, hand, hbang⟩ := hu.exists_head
    obtain rfl : s.cursor.rest = u := hrest
    rcases hcases with ⟨m, hm, hmarker, hcursor⟩ | ⟨c, r, hc, hcut, -⟩
    · obtain hspeaks | ⟨g, u, hfront, hg, hspeaks⟩ := hu
      · rw [hspeaks.marker m hm] at hmarker
        contradiction
      · refine ⟨g, u, ?_, ?_, .inl hspeaks⟩
        · rw [hcursor, Cursor.skip, hfront]
          rfl
        · have hmargin := margin_gaps hg (w := []) trivial
          rwa [List.append_nil] at hmargin
    · rw [hd] at hcut
      obtain ⟨rfl, -⟩ := List.cons.inj hcut
      rcases hc with rfl | rfl | rfl <;> contradiction
  | cons x w =>
    obtain ⟨hsign, hline⟩ : isMargin x = false ∧ OnLine s.cursor.rest s'.cursor.rest := by
      rcases hcases with ⟨m, hm, hmarker, hcursor⟩ | ⟨c, r, hc, hcut, hline⟩
      · obtain ⟨r, hfront, -⟩ := exists_of_atMarker hmarker
        obtain ⟨rfl, -⟩ := List.cons.inj (hrest.symm.trans hfront)
        refine ⟨by rcases hm with rfl | rfl <;> decide, ?_⟩
        rw [hcursor, Cursor.skip, hfront]
        refine ⟨[x, x, x], rfl, ?_⟩
        rcases hm with rfl | rfl <;> decide
      · obtain ⟨rfl, -⟩ := List.cons.inj (hrest.symm.trans hcut)
        exact ⟨by rcases hc with rfl | rfl | rfl <;> decide, hline⟩
    have hfeed : '\n' ∈ w := hw.1.resolve_left (by simp [hsign])
    rw [hrest] at hline
    exact pending_of_onLine hw (List.mem_cons_of_mem x hfeed) hu hline

theorem run_succ {fuel : Nat} (h : run (fuel + 1) s = some tokens) :
    s.settle.cursor.rest = [] ∧ s.settle.tokens ⊆ tokens ∨
      ∃ s', s.settle.scanToken = some s' ∧ run fuel s' = some tokens := by
  rw [run.eq_def] at h
  simp only at h
  rw [show s.skipSpace.closeBlocks s.skipSpace.cursor.column = s.settle from rfl] at h
  split at h
  · rename_i hnil
    obtain ⟨s', hend, rfl⟩ := Option.map_eq_some_iff.mp h
    refine .inl ⟨hnil, fun t ht => ?_⟩
    rw [List.mem_reverse]
    exact (endBlocks_keeps hend).1 ht
  · split at h
    · contradiction
    · rename_i s' hstep
      exact .inr ⟨s', hstep, h⟩

theorem settle_keeps (s : Scanner) :
    s.tokens ⊆ s.settle.tokens ∧ s.settle.cursor = s.skipSpace.cursor :=
  closeBlocks_keeps s.skipSpace s.skipSpace.cursor.column

theorem run_keeps {fuel : Nat} (h : run fuel s = some tokens) : s.tokens ⊆ tokens := by
  induction fuel generalizing s with
  | zero => contradiction
  | succ fuel ih =>
    refine List.Subset.trans (settle_keeps s).1 ?_
    obtain ⟨-, hkept⟩ | ⟨s', hstep, hrun⟩ := run_succ h
    · exact hkept
    · obtain ⟨t, hadds, -⟩ := scanToken_cases hstep
      exact List.Subset.trans hadds.kept (ih hrun)

theorem exists_says_of_run {fuel : Nat} (hpending : Pending s.cursor.rest)
    (h : run fuel s = some tokens) : ∃ t ∈ tokens, t.isIdle = false := by
  induction fuel generalizing s with
  | zero => contradiction
  | succ fuel ih =>
    have hsettle : Pending s.settle.cursor.rest := by
      rw [(settle_keeps s).2]
      exact pending_skipSpace hpending
    obtain ⟨hnil, -⟩ | ⟨s', hstep, hrun⟩ := run_succ h
    · obtain ⟨w, u, hrest, -, hu⟩ := hsettle
      obtain ⟨d, v, rfl, -⟩ := hu.exists_head
      rw [hnil] at hrest
      simp at hrest
    · obtain ⟨t, hadds, hsays | hnext⟩ := pending_scanToken hstep hsettle
      · exact ⟨t, run_keeps hrun hadds.mem, hsays⟩
      · exact ih hnext hrun

end Scanner

/-- A text that opens on some line has a token that says something. -/
theorem exists_says_of_pending {t : Text} {tokens : List Token} (hpending : Pending t)
    (h : Token.ofText? t = some tokens) : ∃ u ∈ tokens, u.isIdle = false := by
  rw [Token.ofText?, Option.ite_none_right_eq_some] at h
  exact Scanner.exists_says_of_run hpending h.2

end SceneAudit.Yaml
