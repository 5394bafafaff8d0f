import SceneAudit.Proofs.Script.Cuts

/-! # Lexemes in front of a cut

How each lexeme is read, as a relation beside the reader, with one rule for each kind. A lexeme that
ends in front of a cut stays the same if white space or a comment is put there, unless it goes on to
the end of its line or its text is a slash.
-/

namespace SceneAudit.Script

variable {a v v' y r : Text} {c : Char} {t : Text} {l : Lexeme}

/-- No white space, comment or directive begins here. -/
structure Plain (c : Char) (t : Text) : Prop where
  space : isSpace c = false
  hash : c ≠ '#'
  slash : c = '/' → beginsWith '/' t = false ∧ beginsWith '*' t = false

def beginsWord (c : Char) (t : Text) : Bool :=
  isWordChar c || (c == '@' && (t.take 1).any isWordChar)

def beginsPair (c : Char) (t : Text) : Bool :=
  (c == '=' && beginsWith '>' t) || (c == ':' && beginsWith ':' t)

/-- How the lexeme in front of a text is read, and what follows it. -/
inductive Reads (c : Char) (t : Text) : Lexeme → Text → Prop where
  | blank (hc : isSpace c = true) :
      Reads c t ⟨.blank, c :: t.takeWhile isSpace⟩ (t.dropWhile isSpace)
  | line (hc : c = '/') (ht : beginsWith '/' t = true) :
      Reads c t ⟨.comment, c :: t.takeWhile isInLine⟩ (t.dropWhile isInLine)
  | block (hc : c = '/') (ht : beginsWith '*' t = true) :
      Reads c t ⟨.comment, '/' :: '*' :: (commentFrom (t.drop 1)).1⟩ (commentFrom (t.drop 1)).2
  | directive (hc : c = '#') :
      Reads c t ⟨.directive, c :: t.takeWhile isInLine⟩ (t.dropWhile isInLine)
  | literal {frame : Frame} {length : Nat} (hplain : Plain c t)
      (hopening : opening? (c :: t) = some (frame, length)) :
      Reads c t ⟨.literal, c :: (literalFrom [frame] (length - 1) t).1⟩
        (literalFrom [frame] (length - 1) t).2
  | word (hplain : Plain c t) (hopening : opening? (c :: t) = none)
      (hword : beginsWord c t = true) :
      Reads c t ⟨.word, c :: t.takeWhile isWordChar⟩ (t.dropWhile isWordChar)
  | pair (hplain : Plain c t) (hopening : opening? (c :: t) = none)
      (hword : beginsWord c t = false) (hpair : beginsPair c t = true) :
      Reads c t ⟨.sign, c :: t.take 1⟩ (t.drop 1)
  | sign (hplain : Plain c t) (hopening : opening? (c :: t) = none)
      (hword : beginsWord c t = false) (hpair : beginsPair c t = false) :
      Reads c t ⟨.sign, [c]⟩ t

theorem exists_reads (c : Char) (t : Text) : ∃ l r, Reads c t l r := by
  by_cases hspace : isSpace c = true
  · exact ⟨_, _, .blank hspace⟩
  by_cases hhash : c = '#'
  · exact ⟨_, _, .directive hhash⟩
  by_cases hline : c = '/' ∧ beginsWith '/' t = true
  · exact ⟨_, _, .line hline.1 hline.2⟩
  by_cases hblock : c = '/' ∧ beginsWith '*' t = true
  · exact ⟨_, _, .block hblock.1 hblock.2⟩
  have hplain : Plain c t :=
    ⟨Bool.eq_false_iff.mpr hspace, hhash, fun hc =>
      ⟨Bool.eq_false_iff.mpr fun ht => hline ⟨hc, ht⟩,
        Bool.eq_false_iff.mpr fun ht => hblock ⟨hc, ht⟩⟩⟩
  cases hopening : opening? (c :: t) with
  | some found => exact ⟨_, _, .literal hplain hopening⟩
  | none =>
    cases hword : beginsWord c t with
    | true => exact ⟨_, _, .word hplain hopening hword⟩
    | false =>
      cases hpair : beginsPair c t with
      | true => exact ⟨_, _, .pair hplain hopening hword hpair⟩
      | false => exact ⟨_, _, .sign hplain hopening hword hpair⟩

theorem sign_eq (c : Char) (t : Text) : (match c, t with
    | '=', '>' :: rest => ((⟨.sign, ['=', '>']⟩, rest) : Lexeme × Text)
    | ':', ':' :: rest => (⟨.sign, [':', ':']⟩, rest)
    | c, t => (⟨.sign, [c]⟩, t)) =
      if beginsPair c t then (⟨.sign, c :: t.take 1⟩, t.drop 1) else (⟨.sign, [c]⟩, t) := by
  split
  · rfl
  · rfl
  · rename_i harrow hcolons
    rw [if_neg]
    rw [beginsPair, Bool.or_eq_true, Bool.and_eq_true, Bool.and_eq_true, beq_iff_eq, beq_iff_eq]
    rintro (⟨rfl, ht⟩ | ⟨rfl, ht⟩)
    · obtain ⟨rest, rfl⟩ := beginsWith_iff.mp ht
      exact harrow rest rfl rfl
    · obtain ⟨rest, rfl⟩ := beginsWith_iff.mp ht
      exact hcolons rest rfl rfl

theorem Plain.firstLexeme_eq (h : Plain c t) : firstLexeme c t =
    match opening? (c :: t) with
    | some (frame, length) =>
      (⟨.literal, c :: (literalFrom [frame] (length - 1) t).1⟩,
        (literalFrom [frame] (length - 1) t).2)
    | none =>
      if beginsWord c t then (⟨.word, c :: t.takeWhile isWordChar⟩, t.dropWhile isWordChar)
      else if beginsPair c t then (⟨.sign, c :: t.take 1⟩, t.drop 1)
      else (⟨.sign, [c]⟩, t) := by
  have hslash : ∀ d, d = '/' ∨ d = '*' → ¬ (c == '/' && beginsWith d t) = true := by
    intro d hd hslash
    rw [Bool.and_eq_true, beq_iff_eq] at hslash
    have hnot := h.slash hslash.1
    rcases hd with rfl | rfl
    · exact Bool.false_ne_true (hnot.1.symm.trans hslash.2)
    · exact Bool.false_ne_true (hnot.2.symm.trans hslash.2)
  rw [firstLexeme.eq_def, if_neg (by rw [h.space]; exact Bool.false_ne_true),
    if_neg (hslash _ (Or.inl rfl)), if_neg (hslash _ (Or.inr rfl)),
    if_neg (by rw [beq_iff_eq]; exact h.hash), ← sign_eq]
  rfl

theorem Reads.eq (h : Reads c t l r) : firstLexeme c t = (l, r) := by
  cases h with
  | blank hc => rw [firstLexeme.eq_def, if_pos hc]
  | line hc ht =>
    subst hc
    rw [firstLexeme.eq_def, if_neg (by decide), ht]
    rfl
  | block hc ht =>
    subst hc
    obtain ⟨u, rfl⟩ := beginsWith_iff.mp ht
    rw [firstLexeme.eq_def, if_neg (by decide)]
    rfl
  | directive hc =>
    subst hc
    rw [firstLexeme.eq_def, if_neg (by decide)]
    rfl
  | literal hplain hopening => rw [hplain.firstLexeme_eq, hopening]
  | word hplain hopening hword => rw [hplain.firstLexeme_eq, hopening, hword]; rfl
  | pair hplain hopening hword hpair => rw [hplain.firstLexeme_eq, hopening, hword, hpair]; rfl
  | sign hplain hopening hword hpair => rw [hplain.firstLexeme_eq, hopening, hword, hpair]; rfl

theorem reads_firstLexeme (c : Char) (t : Text) :
    Reads c t (firstLexeme c t).1 (firstLexeme c t).2 := by
  obtain ⟨l, r, h⟩ := exists_reads c t
  rwa [h.eq]

theorem Reads.append (h : Reads c t l r) : l.text ++ r = c :: t := by
  cases h with
  | blank => exact congrArg (c :: ·) List.takeWhile_append_dropWhile
  | line => exact congrArg (c :: ·) List.takeWhile_append_dropWhile
  | block hc ht =>
    obtain ⟨u, rfl⟩ := beginsWith_iff.mp ht
    subst hc
    exact congrArg (fun t => '/' :: '*' :: t) (commentFrom_append u)
  | directive => exact congrArg (c :: ·) List.takeWhile_append_dropWhile
  | literal => exact congrArg (c :: ·) (literalFrom_append _ _ _)
  | word => exact congrArg (c :: ·) List.takeWhile_append_dropWhile
  | pair => exact congrArg (c :: ·) (List.take_append_drop 1 t)
  | sign => rfl

theorem Reads.text_ne_nil (h : Reads c t l r) : l.text ≠ [] := by
  cases h <;> exact List.cons_ne_nil _ _

/-- The lexeme may end where this text begins, if that is white space or a comment. -/
def Lexeme.Ends (l : Lexeme) (t : Text) : Prop :=
  match l.kind with
  | .word | .literal => True
  | .sign => l.text = ['/'] → beginsWith '/' t = false
  | .directive => t.head?.any isInLine = false
  | .blank | .comment => False

instance (l : Lexeme) (t : Text) : Decidable (l.Ends t) :=
  match l with
  | ⟨.word, _⟩ | ⟨.literal, _⟩ => isTrue trivial
  | ⟨.sign, text⟩ => inferInstanceAs (Decidable (text = ['/'] → beginsWith '/' t = false))
  | ⟨.directive, _⟩ => inferInstanceAs (Decidable (t.head?.any isInLine = false))
  | ⟨.blank, _⟩ | ⟨.comment, _⟩ => isFalse id

theorem Plain.swap (h : Parting v') (hslash : a = [] → c = '/' → beginsWith '/' v' = false)
    (hplain : Plain c (a ++ v)) : Plain c (a ++ v') := by
  refine ⟨hplain.space, hplain.hash, fun hc => ?_⟩
  by_cases ha : a = []
  · subst ha
    exact ⟨hslash rfl hc, h.not_beginsWith (by decide) (by decide)⟩
  · have hnot := hplain.slash hc
    rwa [beginsWith_append ha, beginsWith_append ha] at hnot ⊢

theorem isSpace_of_isWordChar (hc : isWordChar c = true) : isSpace c = false := by
  cases hspace : isSpace c with
  | false => rfl
  | true =>
    simp only [isWordChar, hspace, Bool.not_true, Bool.and_false, Bool.or_false, Bool.or_eq_true,
      Bool.and_eq_true, decide_eq_true_eq, beq_iff_eq] at hc
    rcases hc with (hc | rfl) | rfl
    · simp only [isSpace, Text.isBlank, Bool.or_eq_true, Bool.and_eq_true, decide_eq_true_eq,
        beq_iff_eq] at hspace
      omega
    · exact absurd hspace (by decide)
    · exact absurd hspace (by decide)

theorem Parting.not_wordChar (h : Parting v') : v'.head?.any isWordChar = false :=
  h.not_any (fun _ => isSpace_of_isWordChar) (by decide)

theorem any_take_one (p : Char → Bool) (t : Text) : (t.take 1).any p = t.head?.any p := by
  cases t with
  | nil => rfl
  | cons c t => exact Bool.or_false _

theorem beginsWord_eq (c : Char) (t : Text) :
    beginsWord c t = (isWordChar c || (c == '@' && t.head?.any isWordChar)) := by
  rw [beginsWord, any_take_one]

theorem beginsWord_append (ha : a ≠ []) (c : Char) (v : Text) :
    beginsWord c (a ++ v) = beginsWord c a := by
  rw [beginsWord_eq, beginsWord_eq, List.head?_append_of_ne_nil _ ha]

theorem beginsWord_of_run (h : Parting v') (hdrop : (a ++ v).dropWhile isWordChar = y ++ v) :
    beginsWord c (a ++ v') = beginsWord c (a ++ v) := by
  by_cases ha : a = []
  · rw [ha, List.nil_append] at hdrop
    obtain ⟨-, hrun⟩ := dropWhile_eq_append hdrop
    rw [ha, List.nil_append, List.nil_append, beginsWord_eq, beginsWord_eq, h.not_wordChar,
      not_any_of_takeWhile hrun]
  · rw [beginsWord_append ha, beginsWord_append ha]

theorem not_beginsWord_swap (h : Parting v') (hword : beginsWord c (a ++ v) = false) :
    beginsWord c (a ++ v') = false := by
  by_cases ha : a = []
  · rw [beginsWord_eq, Bool.or_eq_false_iff] at hword
    rw [ha, List.nil_append, beginsWord_eq, hword.1, h.not_wordChar, Bool.and_false, Bool.or_self]
  · rwa [beginsWord_append ha] at hword ⊢

theorem beginsPair_append (ha : a ≠ []) (c : Char) (v : Text) :
    beginsPair c (a ++ v) = beginsPair c a := by
  rw [beginsPair, beginsWith_append ha, beginsWith_append ha, beginsPair]

theorem not_beginsPair_swap (h : Parting v') (hpair : beginsPair c (a ++ v) = false) :
    beginsPair c (a ++ v') = false := by
  by_cases ha : a = []
  · rw [ha, List.nil_append, beginsPair, h.not_beginsWith (by decide) (by decide),
      h.not_beginsWith (by decide) (by decide), Bool.and_false, Bool.and_false, Bool.or_self]
  · rwa [beginsPair_append ha] at hpair ⊢

theorem opening?_none_swap (h : Parting v') (hopening : opening? (c :: (a ++ v)) = none) :
    opening? (c :: (a ++ v')) = none := by
  rw [← List.cons_append] at hopening ⊢
  rw [opening?_swap h (List.cons_ne_nil c a), hopening]
  intro frame n hfound
  rw [hopening] at hfound
  exact absurd hfound (Option.some_ne_none _).symm

/-- A lexeme that ends in front of a cut is read in the same way if the text behind the cut is
replaced by white space or a comment, at which the lexeme may end. -/
theorem Reads.swap (h : Parting v') (hrest : y ++ v ≠ []) (hends : y = [] → l.Ends v')
    (hread : Reads c (a ++ v) l (y ++ v)) : Reads c (a ++ v') l (y ++ v') := by
  have hinside : y ≠ [] → a ≠ [] := by
    rintro hy rfl
    have happend := congrArg List.length hread.append
    have htext := List.length_pos_iff.mpr hread.text_ne_nil
    have hpos := List.length_pos_iff.mpr hy
    simp only [List.length_append, List.length_cons, List.nil_append] at happend
    omega
  generalize hr : y ++ v = r at hread
  cases hread with
  | blank hc =>
    obtain ⟨htake, hdrop⟩ := run_swap (fun hy => (hends hy).elim) hr.symm
    rw [← htake, ← hdrop]
    exact .blank hc
  | line hc ht =>
    have ha := hinside fun hy => (hends hy).elim
    obtain ⟨htake, hdrop⟩ := run_swap (fun hy => (hends hy).elim) hr.symm
    rw [beginsWith_append ha] at ht
    rw [← htake, ← hdrop]
    exact .line hc (by rwa [beginsWith_append ha])
  | block hc ht =>
    have hy : y ≠ [] := fun hy => (hends hy).elim
    cases a with
    | nil => exact absurd rfl (hinside hy)
    | cons d a =>
      have hcomment := commentFrom_swap v' hy (Prod.ext rfl hr.symm)
      have hread := Reads.block (t := d :: a ++ v') hc ht
      rwa [List.cons_append, List.drop_one, List.tail_cons, hcomment] at hread
  | directive hc =>
    obtain ⟨htake, hdrop⟩ := run_swap hends hr.symm
    rw [← htake, ← hdrop]
    exact .directive hc
  | @literal frame length hplain hopening =>
    have hliteral := literalFrom_swap h hrest (Prod.ext rfl hr.symm)
    have hopening' : opening? (c :: a ++ v') = some (frame, length) := by
      refine (opening?_swap h (List.cons_ne_nil c a) fun found n hfound => ?_).trans hopening
      obtain ⟨rfl, rfl⟩ := Prod.mk.inj (Option.some.inj (hopening.symm.trans hfound))
      have hskip := skip_le (hr ▸ hrest)
      have happend := congrArg List.length (literalFrom_append [frame] (length - 1) (a ++ v))
      rw [← hr] at happend
      simp only [List.length_append] at happend
      rw [List.length_cons]
      omega
    have hread := Reads.literal (hplain.swap h ?_) hopening'
    · rwa [hliteral] at hread
    · rintro - rfl
      exact absurd hopening (Option.some_ne_none _).symm
  | word hplain hopening hword =>
    obtain ⟨htake, hdrop⟩ := run_swap (fun _ => h.not_wordChar) hr.symm
    rw [← htake, ← hdrop]
    refine .word (hplain.swap h ?_) (opening?_none_swap h hopening) ?_
    · rintro - rfl
      exact absurd hword Bool.false_ne_true
    · rwa [beginsWord_of_run h hr.symm]
  | pair hplain hopening hword hpair =>
    cases a with
    | nil =>
      have hlength := congrArg List.length hr
      have hpos := List.length_pos_iff.mpr hrest
      simp only [List.length_append, List.length_drop, List.nil_append] at hlength hpos
      omega
    | cons d a =>
      obtain rfl : y = a := List.append_cancel_right hr
      refine .pair (hplain.swap h fun ha => ?_) (opening?_none_swap h hopening)
        (not_beginsWord_swap h hword) hpair
      exact absurd ha (List.cons_ne_nil d y)
  | sign hplain hopening hword hpair =>
    obtain rfl : y = a := List.append_cancel_right hr
    refine .sign (hplain.swap h fun hy hc => ?_) (opening?_none_swap h hopening)
      (not_beginsWord_swap h hword) (not_beginsPair_swap h hpair)
    exact hends hy (by rw [hc])

end SceneAudit.Script
