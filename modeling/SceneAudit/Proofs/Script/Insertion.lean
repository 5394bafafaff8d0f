import Mathlib.Logic.Relation
import SceneAudit.Proofs.Script.Commented
import SceneAudit.Proofs.Script.LexemeCuts

/-! # Comments put into a text

White space and comments between two tokens of a script may be replaced by others. The same tokens
are read then, each with what is in front of it now.
-/

namespace SceneAudit.Script

section Reading

variable {c : Char} {t r : Text} {l : Lexeme}

theorem Reads.length_le (h : Reads c t l r) : r.length ≤ t.length := by
  have happend := congrArg List.length h.append
  have htext := List.length_pos_iff.mpr h.text_ne_nil
  rw [List.length_append, List.length_cons] at happend
  omega

theorem lexemesFrom_nil (fuel : Nat) : lexemesFrom fuel [] = [] := by
  cases fuel <;> rfl

theorem lexemesFrom_cons (fuel : Nat) (h : Reads c t l r) :
    lexemesFrom (fuel + 1) (c :: t) = l :: lexemesFrom fuel r := by
  change (firstLexeme c t).1 :: lexemesFrom fuel (firstLexeme c t).2 = l :: lexemesFrom fuel r
  rw [h.eq]

theorem lexemesFrom_eq {fuel fuel' : Nat} (h : t.length ≤ fuel) (h' : t.length ≤ fuel') :
    lexemesFrom fuel t = lexemesFrom fuel' t := by
  induction fuel generalizing fuel' t with
  | zero =>
    obtain rfl := List.eq_nil_of_length_eq_zero (Nat.le_zero.mp h)
    rw [lexemesFrom_nil, lexemesFrom_nil]
  | succ fuel ih =>
    cases t with
    | nil => rw [lexemesFrom_nil, lexemesFrom_nil]
    | cons c t =>
      cases fuel' with
      | zero => exact absurd h' (by rw [List.length_cons]; omega)
      | succ fuel' =>
        have hread := reads_firstLexeme c t
        have hle := hread.length_le
        rw [List.length_cons] at h h'
        rw [lexemesFrom_cons fuel hread, lexemesFrom_cons fuel' hread,
          ih (hle.trans (Nat.le_of_succ_le_succ h)) (hle.trans (Nat.le_of_succ_le_succ h'))]

theorem Lexeme.ofText_cons (h : Reads c t l r) :
    Lexeme.ofText (c :: t) = l :: Lexeme.ofText r := by
  rw [Lexeme.ofText, List.length_cons, lexemesFrom_cons t.length h, Lexeme.ofText,
    lexemesFrom_eq h.length_le le_rfl]

theorem Lexeme.ofText_eq_cons {ls : List Lexeme} (h : Lexeme.ofText t = l :: ls) :
    ∃ c u r, t = c :: u ∧ Reads c u l r ∧ Lexeme.ofText r = ls := by
  cases t with
  | nil => exact absurd h.symm (List.cons_ne_nil l ls)
  | cons c u =>
    have hread := reads_firstLexeme c u
    rw [Lexeme.ofText_cons hread] at h
    obtain ⟨rfl, hrest⟩ := List.cons.inj h
    exact ⟨c, u, _, rfl, hread, hrest⟩

end Reading

section Gaps

/-- White space and whole comments, and the comments. -/
inductive Gap : Text → List Text → Prop where
  | nil : Gap [] []
  | space {c : Char} {g : Text} {cs : List Text} (hc : isSpace c = true) (h : Gap g cs) :
      Gap (c :: g) cs
  | line {inside g : Text} {c : Char} {cs : List Text} (hinside : ∀ d ∈ inside, isInLine d = true)
      (hc : isInLine c = false) (h : Gap (c :: g) cs) :
      Gap ('/' :: '/' :: (inside ++ c :: g)) (('/' :: '/' :: inside) :: cs)
  | block {inside g : Text} {cs : List Text} (hinside : ¬ ['*', '/'] <:+: inside) (h : Gap g cs) :
      Gap ('/' :: '*' :: (inside ++ '*' :: '/' :: g)) (('/' :: '*' :: (inside ++ ['*', '/'])) :: cs)

variable {g v : Text} {gs : List Text}

theorem Gap.parting (h : Gap g gs) (hne : g ≠ []) (v : Text) : Parting (g ++ v) := by
  cases h with
  | nil => exact absurd rfl hne
  | @space c g _ hc => exact ⟨c, g ++ v, rfl, Or.inl hc⟩
  | line => exact ⟨'/', _, rfl, Or.inr rfl⟩
  | block => exact ⟨'/', _, rfl, Or.inr rfl⟩

theorem commentFrom_inside {inside : Text} (h : ¬ ['*', '/'] <:+: inside) (t : Text) :
    commentFrom (inside ++ '*' :: '/' :: t) = (inside ++ ['*', '/'], t) := by
  induction inside with
  | nil => rfl
  | cons c inside ih =>
    rw [List.cons_append, commentFrom_cons, if_neg, ih fun hinside => h (hinside.trans
      (List.suffix_cons c inside).isInfix)]
    · rfl
    · rintro ⟨rfl, hslash⟩
      cases inside with
      | nil => exact absurd hslash (by rw [List.nil_append, beginsWith, List.head?_cons]; decide)
      | cons d inside =>
        obtain ⟨u, hu⟩ := beginsWith_iff.mp hslash
        obtain ⟨rfl, -⟩ := List.cons.inj hu
        exact h ⟨[], inside, rfl⟩

theorem reads_line {inside : Text} {c : Char} (hinside : ∀ d ∈ inside, isInLine d = true)
    (hc : isInLine c = false) (t : Text) :
    Reads '/' ('/' :: (inside ++ c :: t)) ⟨.comment, '/' :: '/' :: inside⟩ (c :: t) := by
  have hall : ∀ d ∈ '/' :: inside, isInLine d = true :=
    List.forall_mem_cons.mpr ⟨by decide, hinside⟩
  have hnot : ¬ isInLine c = true := Bool.eq_false_iff.mp hc
  have hread := Reads.line (c := '/') (t := '/' :: inside ++ c :: t) rfl rfl
  rwa [List.takeWhile_append_of_pos hall, List.dropWhile_append_of_pos hall,
    List.takeWhile_cons_of_neg hnot, List.dropWhile_cons_of_neg hnot, List.append_nil] at hread

theorem reads_block {inside : Text} (hinside : ¬ ['*', '/'] <:+: inside) (t : Text) :
    Reads '/' ('*' :: (inside ++ '*' :: '/' :: t))
      ⟨.comment, '/' :: '*' :: (inside ++ ['*', '/'])⟩ t := by
  have hread := Reads.block (c := '/') (t := '*' :: (inside ++ '*' :: '/' :: t)) rfl rfl
  rwa [List.drop_one, List.tail_cons, commentFrom_inside hinside] at hread

/-- The tokens of a text, with what lies before the first of them. -/
def tokensFrom (line : Nat) (gap : Text) (comments : List Text) (t : Text) : List Token :=
  Token.ofLexemesFrom line gap comments (Lexeme.ofText t)

theorem tokensFrom_blank {c : Char} {t r x : Text} (h : Reads c t ⟨.blank, x⟩ r) (line : Nat)
    (gap : Text) (cs : List Text) : tokensFrom line gap cs (c :: t) =
      tokensFrom (line + x.count '\n') (gap ++ x) cs r := by
  rw [tokensFrom, Lexeme.ofText_cons h, Token.ofLexemesFrom]
  rfl

theorem tokensFrom_comment {c : Char} {t r x : Text} (h : Reads c t ⟨.comment, x⟩ r) (line : Nat)
    (gap : Text) (cs : List Text) : tokensFrom line gap cs (c :: t) =
      tokensFrom (line + x.count '\n') (gap ++ x) (cs ++ [x]) r := by
  rw [tokensFrom, Lexeme.ofText_cons h, Token.ofLexemesFrom]
  rfl

theorem tokensFrom_dropWhile (line : Nat) (gap : Text) (cs : List Text) (t : Text) :
    tokensFrom line gap cs t = tokensFrom (line + (t.takeWhile isSpace).count '\n')
      (gap ++ t.takeWhile isSpace) cs (t.dropWhile isSpace) := by
  cases t with
  | nil => rw [List.takeWhile_nil, List.append_nil]; rfl
  | cons c t =>
    by_cases hc : isSpace c = true
    · rw [tokensFrom_blank (.blank hc), List.takeWhile_cons_of_pos hc,
        List.dropWhile_cons_of_pos hc]
    · rw [List.takeWhile_cons_of_neg hc, List.dropWhile_cons_of_neg hc, List.append_nil]
      rfl

theorem tokensFrom_space {c : Char} (hc : isSpace c = true) (line : Nat) (gap : Text)
    (cs : List Text) (t : Text) : tokensFrom line gap cs (c :: t) =
      tokensFrom (line + [c].count '\n') (gap ++ [c]) cs t := by
  rw [tokensFrom_blank (.blank hc), tokensFrom_dropWhile _ _ _ t, Nat.add_assoc,
    ← List.count_append, List.append_assoc]
  rfl

theorem Gap.tokensFrom_append (h : Gap g gs) (line : Nat) (gap : Text) (cs : List Text) :
    ∃ line', tokensFrom line gap cs (g ++ v) = tokensFrom line' (gap ++ g) (cs ++ gs) v := by
  induction h generalizing line gap cs with
  | nil => exact ⟨line, by rw [List.nil_append, List.append_nil, List.append_nil]⟩
  | @space c g gs hc _ ih =>
    obtain ⟨line', htokens⟩ := ih (line + [c].count '\n') (gap ++ [c]) cs
    refine ⟨line', ?_⟩
    rw [List.cons_append, tokensFrom_space hc, htokens, List.append_assoc]
    rfl
  | @line inside g c gs hinside hc _ ih =>
    obtain ⟨line', htokens⟩ := ih _ (gap ++ '/' :: '/' :: inside) (cs ++ ['/' :: '/' :: inside])
    refine ⟨line', ?_⟩
    rw [List.cons_append, List.cons_append, List.append_assoc, List.cons_append,
      tokensFrom_comment (reads_line hinside hc (g ++ v)), ← List.cons_append, htokens,
      List.append_assoc, List.append_assoc]
    rfl
  | @block inside g gs hinside _ ih =>
    obtain ⟨line', htokens⟩ := ih _ (gap ++ '/' :: '*' :: (inside ++ ['*', '/']))
      (cs ++ ['/' :: '*' :: (inside ++ ['*', '/'])])
    refine ⟨line', ?_⟩
    rw [List.cons_append, List.cons_append, List.append_assoc, List.cons_append, List.cons_append,
      tokensFrom_comment (reads_block hinside (g ++ v)), htokens, List.append_assoc,
      List.append_assoc, List.cons_append, List.cons_append, List.append_assoc]
    rfl

end Gaps

section Insertion

variable {v v' : Text} {ls ls' : List Lexeme}

/-- The tokens among lexemes are the same but for comments, whatever lies before the first. -/
def SameTokens (ls ls' : List Lexeme) : Prop :=
  ∀ ⦃line line' : Nat⦄ ⦃gap gap' : Text⦄ ⦃cs cs' : List Text⦄, cs.Sublist cs' →
    (cs' = cs → gap' = gap) →
      MoreComments (Token.ofLexemesFrom line gap cs ls) (Token.ofLexemesFrom line' gap' cs' ls')

theorem SameTokens.cons (l : Lexeme) (h : SameTokens ls ls') :
    SameTokens (l :: ls) (l :: ls') := by
  intro line line' gap gap' cs cs' hcs hgap
  rw [Token.ofLexemesFrom, Token.ofLexemesFrom]
  generalize (if l.kind = .directive then Branch.ofDirective? l.text else none) = branch
  split
  · exact h hcs fun heq => by rw [hgap heq]
  · split
    · exact h (hcs.append_right _) fun heq => by rw [hgap (List.append_cancel_right heq)]
    · exact .cons ⟨rfl, rfl, rfl, hcs, hgap⟩ (h (List.Sublist.refl _) fun _ => rfl)

theorem SameTokens.refl (ls : List Lexeme) : SameTokens ls ls := by
  induction ls with
  | nil =>
    intro line line' gap gap' cs cs' _ _
    exact .nil
  | cons l ls ih => exact ih.cons l

theorem Gap.sameTokens {g g' : Text} {gs gs' : List Text} (hgap : Gap g gs) (hgap' : Gap g' gs')
    (hmore : gs.Sublist gs') (hne : gs' ≠ gs) (t : Text) :
    SameTokens (Lexeme.ofText (g ++ t)) (Lexeme.ofText (g' ++ t)) := by
  intro line line' gap gap' cs cs' hcs _
  obtain ⟨first, htokens⟩ := hgap.tokensFrom_append (v := t) line gap cs
  obtain ⟨first', htokens'⟩ := hgap'.tokensFrom_append (v := t) line' gap' cs'
  rw [tokensFrom, tokensFrom] at htokens htokens'
  rw [htokens, htokens']
  refine SameTokens.refl (Lexeme.ofText t) (hcs.append hmore) fun heq => absurd ?_ hne
  have hlength := congrArg List.length heq
  have hle := hcs.length_le
  rw [List.length_append, List.length_append] at hlength
  exact (hmore.eq_of_length_le (by omega)).symm

theorem sameTokens_of_lexemes (hparting : Parting v') (hv : v ≠ [])
    (hrest : SameTokens (Lexeme.ofText v) (Lexeme.ofText v'))
    (hls : Lexeme.ofText (ls.flatMap Lexeme.text ++ v) = ls ++ Lexeme.ofText v)
    (hends : ∀ l ∈ ls.getLast?, l.Ends v') :
    SameTokens (Lexeme.ofText (ls.flatMap Lexeme.text ++ v))
      (Lexeme.ofText (ls.flatMap Lexeme.text ++ v')) := by
  induction ls with
  | nil => exact hrest
  | cons l ls ih =>
    obtain ⟨c, t, r, ht, hread, hr⟩ := Lexeme.ofText_eq_cons hls
    rw [List.flatMap_cons, List.append_assoc] at ht
    obtain rfl : r = ls.flatMap Lexeme.text ++ v :=
      List.append_cancel_left (hread.append.trans ht.symm)
    obtain ⟨d, a, ha⟩ := List.exists_cons_of_ne_nil hread.text_ne_nil
    rw [ha, List.cons_append, ← List.append_assoc] at ht
    obtain ⟨rfl, rfl⟩ := List.cons.inj ht
    have hlast : ls.flatMap Lexeme.text = [] → l.Ends v' := by
      intro hnil
      cases ls with
      | nil => exact hends l rfl
      | cons first ls =>
        obtain ⟨_, _, _, _, hfirst, _⟩ := Lexeme.ofText_eq_cons hr
        exact absurd (List.append_eq_nil_iff.mp hnil).1 hfirst.text_ne_nil
    have hread' := hread.swap hparting (List.append_ne_nil_of_right_ne_nil _ hv) hlast
    have hrest' := (ih hr fun l hl => hends l (List.mem_getLast?_cons hl)).cons l
    rw [← Lexeme.ofText_cons hread, ← Lexeme.ofText_cons hread'] at hrest'
    rwa [List.flatMap_cons, ha, List.cons_append, List.cons_append]

/-- White space and comments between two tokens are replaced, so that there are more comments. The
token in front may end where the new ones begin. -/
inductive CommentPut (t t' : Text) : Prop where
  | mk (ls : List Lexeme) {g g' rest : Text} {cs cs' : List Text}
      (hgap : Gap g cs) (hgap' : Gap g' cs') (hmore : cs.Sublist cs') (hne : cs' ≠ cs)
      (hrest : rest ≠ []) (ht : t = ls.flatMap Lexeme.text ++ (g ++ rest))
      (ht' : t' = ls.flatMap Lexeme.text ++ (g' ++ rest))
      (hls : Lexeme.ofText t = ls ++ Lexeme.ofText (g ++ rest))
      (hends : ∀ l ∈ ls.getLast?, l.Ends (g' ++ rest))

theorem CommentPut.moreComments {t t' : Text} (h : CommentPut t t') :
    MoreComments (Token.ofText t) (Token.ofText t') := by
  rcases h with @⟨ls, g, g', rest, cs, cs', hgap, hgap', hmore, hne, hrest, rfl, rfl, hls, hends⟩
  have hg' : g' ≠ [] := by
    rintro rfl
    cases hgap'
    exact hne (List.sublist_nil.mp hmore).symm
  exact sameTokens_of_lexemes (hgap'.parting hg' rest) (List.append_ne_nil_of_right_ne_nil g hrest)
    (hgap.sameTokens hgap' hmore hne rest) hls hends (List.Sublist.refl []) fun _ => rfl

theorem Token.Commented.trans {t t' t'' : Token} (h : t.Commented t') (h' : t'.Commented t'') :
    t.Commented t'' where
  kind := h'.kind.trans h.kind
  text := h'.text.trans h.text
  branch := h'.branch.trans h.branch
  comments := h.comments.trans h'.comments
  gap hcomments := by
    have hle := h'.comments.length_le
    rw [hcomments] at hle
    have hfirst := h.comments.eq_of_length_le hle
    rw [h'.gap (hcomments.trans hfirst), h.gap hfirst.symm]

theorem moreComments_trans {ts ts' ts'' : List Token} (h : MoreComments ts ts')
    (h' : MoreComments ts' ts'') : MoreComments ts ts'' := by
  induction h generalizing ts'' with
  | nil => exact h'
  | cons ht _ ih =>
    cases h' with
    | cons ht' hs' => exact .cons (ht.trans ht') (ih hs')

/-- Comments put into a text, at one place after the other, are comments put between its tokens. -/
theorem moreComments_of_commentPut {t t' : Text} (h : Relation.ReflTransGen CommentPut t t') :
    MoreComments (Token.ofText t) (Token.ofText t') := by
  induction h with
  | refl => exact SameTokens.refl _ (List.Sublist.refl []) fun _ => rfl
  | tail _ hput ih => exact moreComments_trans ih hput.moreComments

end Insertion

end SceneAudit.Script
