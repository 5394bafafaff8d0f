import Mathlib.Data.List.Forall2
import Mathlib.Data.Option.Basic
import SceneAudit.Script.Outline

/-! # Tokens with more comments between them

Comments may be put between the tokens of a script. Nothing that is read from the tokens goes by
comments but base lists: groups, types, expressions, members and heads of declarations end at the
same tokens as before.
-/

namespace SceneAudit.Script

/-- Tokens that read the same; there may be more comments in front of the second. -/
structure Token.Commented (t t' : Token) : Prop where
  kind : t'.kind = t.kind
  text : t'.text = t.text
  branch : t'.branch = t.branch
  comments : t.comments.Sublist t'.comments
  gap : t'.comments = t.comments → t'.gap = t.gap

/-- Comments are put between tokens. -/
abbrev MoreComments : List Token → List Token → Prop :=
  List.Forall₂ Token.Commented

namespace Token.Commented

variable {t t' : Token} (h : t.Commented t')

include h

theorem isSign (sign : String) : t'.isSign sign = t.isSign sign := by
  rw [Token.isSign, Token.isSign, h.kind, h.text]

theorem isWord (word : String) : t'.isWord word = t.isWord word := by
  rw [Token.isWord, Token.isWord, h.kind, h.text]

theorem isName : t'.isName = t.isName := by
  rw [Token.isName, Token.isName, h.kind, h.text]

theorem opensBranch : t'.opensBranch = t.opensBranch := by
  rw [Token.opensBranch, Token.opensBranch, h.branch]

theorem closesBranch : t'.closesBranch = t.closesBranch := by
  rw [Token.closesBranch, Token.closesBranch, h.branch]

theorem opens : t'.opens = t.opens := by
  rw [Token.opens, Token.opens, h.isSign, h.isSign, h.isSign]

theorem closes : t'.closes = t.closes := by
  rw [Token.closes, Token.closes, h.isSign, h.isSign, h.isSign]

theorem isModifier : Script.isModifier t' = Script.isModifier t := by
  rw [Script.isModifier, Script.isModifier, show t'.isWord = t.isWord from funext h.isWord]

theorem endsHeader : Script.endsHeader t' = Script.endsHeader t := by
  rw [Script.endsHeader, Script.endsHeader, h.isSign, h.isSign]

end Token.Commented

section Lists

variable {ts ts' : List Token} (h : MoreComments ts ts')

include h

theorem nextIsSign_commented (sign : String) : nextIsSign sign ts' = nextIsSign sign ts := by
  cases h with
  | nil => rfl
  | cons ht => exact ht.isSign sign

theorem nextIsWord_commented (word : String) : nextIsWord word ts' = nextIsWord word ts := by
  cases h with
  | nil => rfl
  | cons ht => exact ht.isWord word

theorem dropWhile_commented {p : Token → Bool} (hp : ∀ t t', t.Commented t' → p t' = p t) :
    MoreComments (ts.dropWhile p) (ts'.dropWhile p) := by
  induction h with
  | nil => exact .nil
  | cons ht hs ih =>
    rw [List.dropWhile_cons, List.dropWhile_cons, hp _ _ ht]
    split
    · exact ih
    · exact .cons ht hs

end Lists

theorem map_commented {α : Type} {R : α → α → Prop} {f : α → α} {o o' : Option α}
    (hf : ∀ a a', R a a' → R (f a) (f a')) (h : Option.Rel R o o') :
    Option.Rel R (o.map f) (o'.map f) := by
  cases h with
  | none => exact .none
  | some h => exact .some (hf _ _ h)

theorem isNone_commented {α : Type} {R : α → α → Prop} {o o' : Option α} (h : Option.Rel R o o') :
    o'.isNone = o.isNone := by
  cases h <;> rfl

section Extents

variable {ts ts' : List Token}

theorem afterGroup_commented (depth : Nat) (h : MoreComments ts ts') :
    MoreComments (afterGroup depth ts) (afterGroup depth ts') := by
  induction h generalizing depth with
  | nil => exact .nil
  | cons ht hs ih =>
    rw [afterGroup, afterGroup, ht.opens, ht.closes]
    split
    · exact ih _
    · split
      · split
        · exact hs
        · exact ih _
      · exact ih _

theorem afterRank?_commented (h : MoreComments ts ts') :
    Option.Rel MoreComments (afterRank? ts) (afterRank? ts') := by
  induction h with
  | nil => exact .none
  | cons ht hs ih =>
    rw [afterRank?, afterRank?, ht.isSign, ht.isSign]
    split
    · exact ih
    · split
      · exact .some hs
      · exact .none

theorem afterTypeMarks_commented {fuel : Nat} (h : MoreComments ts ts') :
    MoreComments (afterTypeMarks fuel ts) (afterTypeMarks fuel ts') := by
  induction fuel generalizing ts ts' with
  | zero => exact h
  | succ fuel ih =>
    cases h with
    | nil => exact .nil
    | @cons t t' ts ts' ht hs =>
      rw [afterTypeMarks, afterTypeMarks, ht.isSign, ht.isSign, ht.isSign]
      have hrank := afterRank?_commented hs
      generalize afterRank? ts = rest, afterRank? ts' = rest' at hrank
      split
      · exact ih hs
      · split
        · cases hrank with
          | none => exact .cons ht hs
          | some hrest => exact ih hrest
        · exact .cons ht hs

/-- The readers of types go by the tokens alone. -/
structure TypesCommented (fuel : Nat) : Prop where
  type : ∀ {ts ts' : List Token}, MoreComments ts ts' →
    Option.Rel MoreComments (afterType? fuel ts) (afterType? fuel ts')
  name : ∀ {ts ts' : List Token}, MoreComments ts ts' →
    Option.Rel MoreComments (afterTypeName? fuel ts) (afterTypeName? fuel ts')
  arguments : ∀ {ts ts' : List Token}, MoreComments ts ts' →
    Option.Rel MoreComments (afterTypeArguments? fuel ts) (afterTypeArguments? fuel ts')

namespace TypesCommented

variable {fuel : Nat} (ih : TypesCommented fuel)

include ih

theorem type_succ (h : MoreComments ts ts') :
    Option.Rel MoreComments (afterType? (fuel + 1) ts) (afterType? (fuel + 1) ts') := by
  cases h with
  | nil => exact .none
  | @cons t t' ts ts' ht hs =>
    rw [afterType?, afterType?, ht.isSign, ht.isWord, nextIsSign_commented hs, ht.isName]
    split
    · exact .some (afterTypeMarks_commented (afterGroup_commented 0 (.cons ht hs)))
    · split
      · have hrest := dropWhile_commented hs (p := fun t => !t.isSign "<")
          fun _ _ hu => by rw [hu.isSign]
        generalize List.dropWhile _ ts = rest, List.dropWhile _ ts' = rest' at hrest
        cases hrest with
        | nil => exact .none
        | cons _ hrest =>
          exact map_commented (fun _ _ => afterTypeMarks_commented) (ih.arguments hrest)
      · split
        · exact map_commented (fun _ _ => afterTypeMarks_commented) (ih.name hs)
        · exact .none

theorem name_succ (h : MoreComments ts ts') :
    Option.Rel MoreComments (afterTypeName? (fuel + 1) ts) (afterTypeName? (fuel + 1) ts') := by
  cases h with
  | nil => exact .some .nil
  | @cons t t' ts ts' ht hs =>
    rw [afterTypeName?.eq_def _ (t :: ts), afterTypeName?.eq_def _ (t' :: ts')]
    dsimp only
    rw [ht.isSign, ht.isSign, ht.isSign]
    split
    · cases hs with
      | nil => exact .none
      | cons hnamed hrest =>
        dsimp only
        rw [hnamed.isName]
        split
        · exact ih.name hrest
        · exact .none
    · split
      · have hrest := ih.arguments hs
        generalize afterTypeArguments? fuel ts = rest, afterTypeArguments? fuel ts' = rest' at hrest
        cases hrest with
        | none => exact .none
        | some hrest => exact ih.name hrest
      · exact .some (.cons ht hs)

theorem arguments_succ (h : MoreComments ts ts') : Option.Rel MoreComments
    (afterTypeArguments? (fuel + 1) ts) (afterTypeArguments? (fuel + 1) ts') := by
  cases h with
  | nil => exact .none
  | @cons t t' ts ts' ht hs =>
    rw [afterTypeArguments?, afterTypeArguments?, ht.isSign, ht.isSign]
    split
    · exact .some hs
    · split
      · exact ih.arguments hs
      · have hrest := ih.type (.cons ht hs)
        generalize afterType? fuel (t :: ts) = rest, afterType? fuel (t' :: ts') = rest' at hrest
        cases hrest with
        | none => exact .none
        | some hrest =>
          cases hrest with
          | nil => exact .none
          | cons hnext hrest =>
            dsimp only
            rw [hnext.isSign, hnext.isSign]
            split
            · exact ih.arguments hrest
            · split
              · exact .some hrest
              · exact .none

end TypesCommented

theorem typesCommented (fuel : Nat) : TypesCommented fuel := by
  induction fuel with
  | zero => exact ⟨fun _ => .none, fun h => .some h, fun _ => .none⟩
  | succ fuel ih => exact ⟨ih.type_succ, ih.name_succ, ih.arguments_succ⟩

theorem afterType?_commented (fuel : Nat) (h : MoreComments ts ts') :
    Option.Rel MoreComments (afterType? fuel ts) (afterType? fuel ts') :=
  (typesCommented fuel).type h

theorem afterTypeArguments?_commented (fuel : Nat) (h : MoreComments ts ts') :
    Option.Rel MoreComments (afterTypeArguments? fuel ts) (afterTypeArguments? fuel ts') :=
  (typesCommented fuel).arguments h

theorem afterExpression_commented {fuel depth : Nat} {named : Bool} (h : MoreComments ts ts') :
    MoreComments (afterExpression fuel depth named ts) (afterExpression fuel depth named ts') := by
  induction fuel generalizing depth named ts ts' with
  | zero => exact h
  | succ fuel ih =>
    cases h with
    | nil => exact .nil
    | @cons t t' ts ts' ht hs =>
      rw [afterExpression, afterExpression, ht.isSign, ht.isSign, ht.isSign, ht.opens, ht.closes,
        ht.isName]
      split
      · exact .cons ht hs
      · split
        · exact ih hs
        · split
          · split
            · exact .cons ht hs
            · exact ih hs
          · split
            · have hrest := afterTypeArguments?_commented fuel hs
              generalize afterTypeArguments? fuel ts = rest, afterTypeArguments? fuel ts' = rest'
                at hrest
              cases hrest with
              | none => exact ih hs
              | some hrest => exact ih hrest
            · exact ih hs

theorem afterMember_commented {arrow : Bool} {depth : Nat} (h : MoreComments ts ts') :
    MoreComments (afterMember arrow depth ts) (afterMember arrow depth ts') := by
  induction h generalizing arrow depth with
  | nil => exact .nil
  | cons ht hs ih =>
    rw [afterMember, afterMember, ht.opens, ht.closes, ht.isSign, ht.isSign, ht.isSign]
    split
    · exact ih
    · split
      · split
        · exact .cons ht hs
        · split
          · exact hs
          · exact ih
      · split
        · exact hs
        · exact ih

theorem afterProperty_commented (h : MoreComments ts ts') :
    MoreComments (afterProperty ts) (afterProperty ts') := by
  have hgroup := afterGroup_commented 0 h
  rw [afterProperty, afterProperty, nextIsSign_commented h]
  dsimp only
  rw [nextIsSign_commented hgroup, hgroup.length_eq]
  split
  · split
    · exact List.forall₂_drop 1 (afterExpression_commented hgroup)
    · exact hgroup
  · exact afterMember_commented h

theorem upTo_commented {stops : Token → Bool} (depth : Nat)
    (hstops : ∀ t t', t.Commented t' → stops t' = stops t) (h : MoreComments ts ts') :
    MoreComments (upTo stops depth ts) (upTo stops depth ts') := by
  induction h generalizing depth with
  | nil => exact .nil
  | cons ht hs ih =>
    rw [upTo, upTo, hstops _ _ ht, ht.opens, ht.closes]
    split
    · exact .cons ht hs
    · split
      · exact ih _
      · split
        · exact ih _
        · exact ih _

end Extents

section Heads

variable {ts ts' : List Token}

theorem isGlobalAttribute_commented (h : MoreComments ts ts') :
    isGlobalAttribute ts' = isGlobalAttribute ts := by
  cases h with
  | nil => rfl
  | cons ha hs =>
    cases hs with
    | nil => rfl
    | cons hb hs =>
      cases hs with
      | nil => rfl
      | cons hc =>
        rw [isGlobalAttribute, isGlobalAttribute, ha.isSign, hb.isWord, hb.isWord, hc.isSign]

theorem afterAttributeBranches?_commented (fuel : Nat) (h : MoreComments ts ts') :
    Option.Rel MoreComments (afterAttributeBranches? fuel ts)
      (afterAttributeBranches? fuel ts') := by
  induction fuel generalizing ts ts' with
  | zero => exact .none
  | succ fuel ih =>
    cases h with
    | nil => exact .none
    | cons ht hs =>
      rw [afterAttributeBranches?, afterAttributeBranches?, ht.isSign,
        isGlobalAttribute_commented (.cons ht hs), ht.opensBranch, ht.closesBranch]
      split
      · exact ih (afterGroup_commented 0 (.cons ht hs))
      · split
        · exact ih hs
        · split
          · exact .some hs
          · exact .none

theorem beginsItem_commented (h : MoreComments ts ts') : beginsItem ts' = beginsItem ts := by
  cases h with
  | nil => rfl
  | cons ht => rw [beginsItem, beginsItem, ht.branch, ht.isSign]

theorem afterAttributeRegion?_commented (h : MoreComments ts ts') :
    Option.Rel MoreComments (afterAttributeRegion? ts) (afterAttributeRegion? ts') := by
  cases h with
  | nil => exact .none
  | cons ht hs =>
    cases hs with
    | nil => exact .none
    | @cons first first' ts ts' hfirst hs =>
      have hrest := afterAttributeBranches?_commented (ts.length + 1) (.cons hfirst hs)
      rw [afterAttributeRegion?, afterAttributeRegion?, ht.branch, hfirst.isSign, ← hs.length_eq]
      generalize afterAttributeBranches? _ (first :: ts) = rest,
        afterAttributeBranches? _ (first' :: ts') = rest' at hrest
      split
      · cases hrest with
        | none => exact .none
        | some hrest =>
          dsimp only
          rw [beginsItem_commented hrest]
          split
          · exact .some hrest
          · exact .none
      · exact .none

theorem afterHead_commented (fuel : Nat) (h : MoreComments ts ts') :
    MoreComments (afterHead fuel ts) (afterHead fuel ts') := by
  induction fuel generalizing ts ts' with
  | zero => exact h
  | succ fuel ih =>
    cases h with
    | nil => exact .nil
    | @cons t t' ts ts' ht hs =>
      have hregion := afterAttributeRegion?_commented (.cons ht hs)
      rw [afterHead, afterHead, ht.isSign, ht.isModifier]
      generalize afterAttributeRegion? (t :: ts) = rest, afterAttributeRegion? (t' :: ts') = rest'
        at hregion
      split
      · exact ih (afterGroup_commented 0 (.cons ht hs))
      · split
        · exact ih hs
        · cases hregion with
          | none => exact .cons ht hs
          | some hrest => exact ih hrest

end Heads

/-- The same is read, and what follows it are the same tokens but for comments. -/
def SameRead {α : Type} (r r' : α × List Token) : Prop :=
  r'.1 = r.1 ∧ MoreComments r.2 r'.2

section Members

variable {ts ts' : List Token}

theorem memberName?_commented (fuel : Nat) (h : MoreComments ts ts') :
    Option.Rel SameRead (memberName? fuel ts) (memberName? fuel ts') := by
  induction fuel generalizing ts ts' with
  | zero => exact .none
  | succ fuel ih =>
    cases h with
    | nil => exact .none
    | @cons t t' ts ts' ht hs =>
      have hname : SameRead (t.text, ts) (t'.text, ts') := ⟨ht.text, hs⟩
      have hrest := afterTypeArguments?_commented fuel (List.forall₂_drop 1 hs)
      rw [memberName?, memberName?, ht.isName, nextIsSign_commented hs, nextIsSign_commented hs,
        nextIsSign_commented hs]
      generalize afterTypeArguments? fuel (ts.drop 1) = rest,
        afterTypeArguments? fuel (ts'.drop 1) = rest' at hrest
      split
      · split
        · exact ih (List.forall₂_drop 1 hs)
        · split
          · cases hrest with
            | none => exact .some hname
            | some hrest =>
              dsimp only
              rw [nextIsSign_commented hrest]
              split
              · exact ih (List.forall₂_drop 1 hrest)
              · exact .some hname
          · exact .some hname
      · exact .none

/-- What follows the brackets and the value of a declared variable. -/
def afterVariable (ts : List Token) : List Token :=
  let ts := if nextIsSign "[" ts then afterGroup 0 ts else ts
  if nextIsSign "=" ts then afterExpression ts.length 0 false (ts.drop 1) else ts

theorem afterVariable_commented (h : MoreComments ts ts') :
    MoreComments (afterVariable ts) (afterVariable ts') := by
  have hgroup : MoreComments (if nextIsSign "[" ts then afterGroup 0 ts else ts)
      (if nextIsSign "[" ts' then afterGroup 0 ts' else ts') := by
    rw [nextIsSign_commented h]
    split
    · exact afterGroup_commented 0 h
    · exact h
  unfold afterVariable
  generalize (if nextIsSign "[" ts then afterGroup 0 ts else ts) = us,
    (if nextIsSign "[" ts' then afterGroup 0 ts' else ts') = us' at hgroup
  dsimp only
  rw [nextIsSign_commented hgroup, hgroup.length_eq]
  split
  · exact afterExpression_commented (List.forall₂_drop 1 hgroup)
  · exact hgroup

theorem declarators_succ {fuel : Nat} : declarators (fuel + 1) ts =
    match afterVariable ts with
    | t :: name :: rest =>
      if t.isSign "," then
        (name.text :: (declarators fuel rest).1, (declarators fuel rest).2)
      else ([], afterMember false 0 (t :: name :: rest))
    | ts => ([], afterMember false 0 ts) :=
  rfl

theorem declarators_commented (fuel : Nat) (h : MoreComments ts ts') :
    SameRead (declarators fuel ts) (declarators fuel ts') := by
  induction fuel generalizing ts ts' with
  | zero => exact ⟨rfl, h⟩
  | succ fuel ih =>
    have hrest := afterVariable_commented h
    rw [declarators_succ, declarators_succ]
    generalize afterVariable ts = rest, afterVariable ts' = rest' at hrest
    cases hrest with
    | nil => exact ⟨rfl, .nil⟩
    | cons ht hs =>
      cases hs with
      | nil => exact ⟨rfl, afterMember_commented (.cons ht .nil)⟩
      | @cons name _ _ _ hname hs =>
        dsimp only
        rw [ht.isSign, hname.text]
        split
        · exact ⟨congrArg (name.text :: ·) (ih hs).1, (ih hs).2⟩
        · exact ⟨rfl, afterMember_commented (.cons ht (.cons hname hs))⟩

theorem member_commented (h : MoreComments ts ts') : SameRead (member ts) (member ts') := by
  have htype := afterType?_commented ts.length h
  rw [member, member, ← h.length_eq]
  generalize afterType? ts.length ts = rest, afterType? ts.length ts' = rest' at htype
  cases htype with
  | none => exact ⟨rfl, afterMember_commented h⟩
  | @some rest rest' hrest =>
    have hname := memberName?_commented rest.length hrest
    dsimp only
    rw [← hrest.length_eq]
    generalize memberName? rest.length rest = found, memberName? rest.length rest' = found'
      at hname
    cases hname with
    | none => exact ⟨rfl, afterMember_commented hrest⟩
    | @some found found' hname =>
      rcases found with ⟨name, behind⟩
      rcases found' with ⟨name', behind'⟩
      obtain ⟨rfl, hbehind⟩ := hname
      have hdeclarators := declarators_commented behind.length hbehind
      dsimp only at hbehind ⊢
      simp only [nextIsSign_commented hbehind]
      split
      · exact ⟨rfl, afterMember_commented hbehind⟩
      · split
        · exact ⟨rfl, afterProperty_commented (afterGroup_commented 0 hbehind)⟩
        · split
          · exact ⟨rfl, afterProperty_commented hbehind⟩
          · split
            · rw [← hbehind.length_eq]
              exact ⟨congrArg (fun names => fieldNode (name' :: names)) hdeclarators.1,
                hdeclarators.2⟩
            · exact ⟨rfl, afterMember_commented hbehind⟩

end Members

section Kinds

variable {ts ts' : List Token}

theorem declaresRecord_commented (h : MoreComments ts ts') :
    declaresRecord ts' = declaresRecord ts := by
  cases h with
  | nil => rfl
  | cons ht hs =>
    rw [declaresRecord, declaresRecord, ht.isWord, ht.isWord, ht.isName]
    cases hs with
    | nil => rfl
    | cons hu =>
      simp only [List.take_succ_cons, List.take_zero, List.any_cons, hu.isSign, hu.isWord]

theorem typeName_commented (h : MoreComments ts ts') : SameRead (typeName ts) (typeName ts') := by
  cases h with
  | nil => exact ⟨rfl, .nil⟩
  | cons ht hs =>
    rw [typeName, typeName, ht.isName, ht.text]
    split
    · exact ⟨rfl, hs⟩
    · exact ⟨rfl, .cons ht hs⟩

theorem dropClosing_commented (h : MoreComments ts ts') :
    MoreComments (dropClosing ts) (dropClosing ts') := by
  cases h with
  | nil => exact .nil
  | cons ht hs =>
    rw [dropClosing, dropClosing, ht.isSign]
    split
    · exact hs
    · exact .cons ht hs

/-- The same kind of declaration. -/
inductive ItemKind.Commented : ItemKind → ItemKind → Prop where
  | scope : ItemKind.Commented .scope .scope
  | type {kind : NodeKind} {rest rest' : List Token} (h : MoreComments rest rest') :
      ItemKind.Commented (.type kind rest) (.type kind rest')
  | passed : ItemKind.Commented .passed .passed
  | member : ItemKind.Commented .member .member

theorem recordKind_commented (h : MoreComments ts ts') :
    (recordKind ts).Commented (recordKind ts') := by
  rw [recordKind, recordKind, nextIsWord_commented h, nextIsWord_commented h]
  split
  · exact .type (List.forall₂_drop 1 h)
  · split
    · exact .type (List.forall₂_drop 1 h)
    · exact .type h

theorem itemKind_commented (inType : Bool) (h : MoreComments ts ts') :
    (itemKind inType ts).Commented (itemKind inType ts') := by
  cases h with
  | nil => exact .passed
  | cons ht hs =>
    simp only [itemKind, ht.isWord, ht.isSign, declaresRecord_commented hs,
      nextIsSign_commented hs]
    split
    · exact .type hs
    · split
      · exact .type hs
      · split
        · exact recordKind_commented hs
        · split
          · exact .scope
          · split
            · exact .passed
            · split
              · exact .member
              · exact .passed

theorem regionKind_commented {t t' : Token} (h : t.Commented t') :
    regionKind t' = regionKind t := by
  rw [regionKind, regionKind, h.branch]

end Kinds

end SceneAudit.Script
