import SceneAudit.Proofs.Script.CommentedBases
import SceneAudit.Proofs.Script.Insertion

/-! # Comments as bases

What a type derives from is read part by part from its base list, whatever comments are put between
the tokens. So the bases stay as they were only if no comment in front of a part has a simple name.
-/

namespace SceneAudit.Script

section Parts

/-- A part of a base list before and after comments are put between the tokens. -/
structure BasePart.Commented (p p' : BasePart) : Prop where
  comma : Option.Rel Token.Commented p.comma p'.comma
  first : p.first.Commented p'.first
  more : MoreComments p.more p'.more

namespace Token.Commented

variable {t t' : Token} (h : t.Commented t')

include h

theorem endsBases : t'.endsBases = t.endsBases := by
  rw [Token.endsBases, Token.endsBases, h.isSign, h.isSign, h.isWord]

theorem endsEntry (whole : Bool) : t'.endsEntry whole = t.endsEntry whole := by
  rw [Token.endsEntry, Token.endsEntry, h.endsBases, h.isSign, h.isSign]

theorem depthAfter (depth : Nat) : t'.depthAfter depth = t.depthAfter depth := by
  rw [Token.depthAfter, Token.depthAfter, h.opens, h.closes]

theorem anglesAfter (depth angles : Nat) :
    t'.anglesAfter depth angles = t.anglesAfter depth angles := by
  rw [Token.anglesAfter, Token.anglesAfter, h.isSign, h.isSign]

end Token.Commented

variable {whole : Bool} {ps : List BasePart} {p p' : BasePart}

theorem GoesOn.commented {depth angles : Nat} {ts ts' : List Token}
    (hgoesOn : GoesOn whole depth angles ts) (h : MoreComments ts ts') :
    GoesOn whole depth angles ts' := by
  induction hgoesOn generalizing ts' with
  | nil =>
    obtain rfl := List.forall₂_nil_left_iff.mp h
    exact .nil
  | cons hinside _ ih =>
    cases h with
    | cons ht hs =>
      refine .cons (by rwa [ht.endsEntry]) ?_
      rw [ht.depthAfter, ht.anglesAfter]
      exact ih hs

theorem BasePart.Listed.commented (hlisted : p.Listed whole) (h : p.Commented p') :
    p'.Listed whole where
  begins := by
    rw [h.first.endsBases, h.first.isSign]
    exact hlisted.begins
  goesOn := by
    rw [h.first.depthAfter, h.first.anglesAfter]
    exact hlisted.goesOn.commented h.more

theorem BasePart.Follows.commented (hfollows : p.Follows whole) (h : p.Commented p') :
    p'.Follows whole := by
  rcases p with ⟨comma, first, more⟩
  rcases p' with ⟨comma', first', more'⟩
  cases h.comma with
  | none => exact ⟨hfollows.1, (h.first.isSign _).trans hfollows.2⟩
  | some hcomma => exact (hcomma.isSign _).trans hfollows

theorem exists_part_commented {ts' : List Token} (h : MoreComments p.tokens ts') :
    ∃ p', ts' = p'.tokens ∧ p.Commented p' := by
  rcases p with ⟨_ | comma, first, more⟩
  · cases h with
    | @cons _ first' _ more' hfirst hmore =>
      exact ⟨⟨none, first', more'⟩, rfl, .none, hfirst, hmore⟩
  · cases h with
    | @cons _ comma' _ _ hcomma h =>
      cases h with
      | @cons _ first' _ more' hfirst hmore =>
        exact ⟨⟨some comma', first', more'⟩, rfl, .some hcomma, hfirst, hmore⟩

theorem exists_append_commented {ts us vs : List Token} (h : MoreComments (ts ++ us) vs) :
    ∃ ts' us', vs = ts' ++ us' ∧ MoreComments ts ts' ∧ MoreComments us us' := by
  refine ⟨_, _, (List.take_append_drop ts.length vs).symm, ?_, ?_⟩
  · have htake := List.forall₂_take ts.length h
    rwa [List.take_left] at htake
  · have hdrop := List.forall₂_drop ts.length h
    rwa [List.drop_left] at hdrop

theorem exists_parts_commented {rest ts' : List Token}
    (h : MoreComments (ps.flatMap BasePart.tokens ++ rest) ts') :
    ∃ ps' rest', ts' = ps'.flatMap BasePart.tokens ++ rest' ∧
      List.Forall₂ BasePart.Commented ps ps' ∧ MoreComments rest rest' := by
  induction ps generalizing ts' with
  | nil => exact ⟨[], ts', rfl, .nil, h⟩
  | cons p ps ih =>
    rw [List.flatMap_cons, List.append_assoc] at h
    obtain ⟨us, vs, rfl, hp, hps⟩ := exists_append_commented h
    obtain ⟨p', rfl, hpart⟩ := exists_part_commented hp
    obtain ⟨ps', rest', rfl, hparts, hrest⟩ := ih hps
    refine ⟨p' :: ps', rest', ?_, .cons hpart hparts, hrest⟩
    rw [List.flatMap_cons, List.append_assoc]

theorem forall_mem_commented {P Q : BasePart → Prop} {ps' : List BasePart}
    (hstep : ∀ p p', p.Commented p' → P p → Q p') (h : List.Forall₂ BasePart.Commented ps ps')
    (hps : ∀ p ∈ ps, P p) : ∀ p' ∈ ps', Q p' := by
  induction h with
  | nil => exact List.forall_mem_nil Q
  | cons hp _ ih =>
    obtain ⟨hfirst, hrest⟩ := List.forall_mem_cons.mp hps
    exact List.forall_mem_cons.mpr ⟨hstep _ _ hp hfirst, ih hrest⟩

theorem BaseList.commented {ps' : List BasePart} (h : BaseList whole ps)
    (hps : List.Forall₂ BasePart.Commented ps ps') : BaseList whole ps' := by
  cases hps with
  | nil => exact absurd rfl h.ne_nil
  | @cons p p' ps ps' hp hps =>
    refine ⟨?_, ?_, ?_, List.cons_ne_nil p' ps'⟩
    · exact forall_mem_commented (fun _ _ hq hlisted => hlisted.commented hq) (.cons hp hps) h.parts
    · rintro q hq
      obtain rfl := Option.some.inj hq
      have hcomma := hp.comma
      rw [h.first p rfl] at hcomma
      generalize p'.comma = comma at hcomma
      cases hcomma
      rfl
    · exact forall_mem_commented (fun _ _ hq hfollows => hfollows.commented hq) hps h.follows

end Parts

section Names

variable {ps ps' : List BasePart}

theorem baseNames_nodes (ps : List BasePart) :
    Node.baseNames (ps.flatMap BasePart.nodes) = ps.flatMap BasePart.names := by
  induction ps with
  | nil => rfl
  | cons p ps ih =>
    rw [List.flatMap_cons, List.flatMap_cons, baseNames_append, ih, BasePart.nodes, BasePart.names,
      baseNames_append, baseNames_comments, baseNames_entry]

def partNames (ps : List BasePart) : List Text :=
  ps.filterMap fun p => TypeName.simple? p.text

theorem partNames_cons (p : BasePart) (ps : List BasePart) :
    partNames (p :: ps) = (TypeName.simple? p.text).toList ++ partNames ps := by
  rw [partNames, List.filterMap_eq_flatMap_toList, List.flatMap_cons,
    ← List.filterMap_eq_flatMap_toList]
  rfl

theorem partNames_sublist (ps : List BasePart) :
    (partNames ps).Sublist (ps.flatMap BasePart.names) := by
  induction ps with
  | nil => exact .slnil
  | cons p ps ih =>
    rw [partNames_cons, List.flatMap_cons]
    exact (List.sublist_append_right _ _).append ih

theorem names_eq_iff (ps : List BasePart) : ps.flatMap BasePart.names = partNames ps ↔
    ∀ p ∈ ps, ∀ c ∈ p.comments, TypeName.simple? c = none := by
  induction ps with
  | nil => exact iff_of_true rfl (List.forall_mem_nil _)
  | cons p ps ih =>
    rw [List.flatMap_cons, partNames_cons, List.forall_mem_cons, ← List.filterMap_eq_nil_iff, ← ih]
    constructor
    · intro h
      have hlength := congrArg List.length h
      have hle := (partNames_sublist ps).length_le
      rw [List.length_append, List.length_append, BasePart.names, List.length_append] at hlength
      refine ⟨List.eq_nil_of_length_eq_zero (by omega), ?_⟩
      exact ((partNames_sublist ps).eq_of_length (by omega)).symm
    · rintro ⟨hcomments, hrest⟩
      rw [BasePart.names, hcomments, hrest, List.nil_append]

theorem partNames_eq_of_text (h : List.Forall₂ (fun p p' => BasePart.text p' = p.text) ps ps') :
    partNames ps' = partNames ps := by
  induction h with
  | nil => rfl
  | cons hp _ ih => rw [partNames_cons, partNames_cons, hp, ih]

theorem mem_names_iff {b : Text} : b ∈ ps.flatMap BasePart.names ↔
    b ∈ partNames ps ∨ ∃ p ∈ ps, ∃ c ∈ p.comments, TypeName.simple? c = some b := by
  simp only [List.mem_flatMap, BasePart.names, List.mem_append, List.mem_filterMap,
    Option.mem_toList, partNames]
  constructor
  · rintro ⟨p, hp, ⟨c, hc, hb⟩ | hb⟩
    · exact Or.inr ⟨p, hp, c, hc, hb⟩
    · exact Or.inl ⟨p, hp, hb⟩
  · rintro (⟨p, hp, hb⟩ | ⟨p, hp, c, hc, hb⟩)
    · exact ⟨p, hp, Or.inr hb⟩
    · exact ⟨p, hp, Or.inl ⟨c, hc, hb⟩⟩

theorem names_eq_names_iff (hnone : ∀ p ∈ ps, p.comments = [])
    (htext : List.Forall₂ (fun p p' => BasePart.text p' = p.text) ps ps') :
    ps'.flatMap BasePart.names = ps.flatMap BasePart.names ↔
      ∀ p ∈ ps', ∀ c ∈ p.comments, TypeName.simple? c = none := by
  have hbefore : ps.flatMap BasePart.names = partNames ps :=
    (names_eq_iff ps).mpr fun p hp c hc => absurd (hnone p hp ▸ hc) List.not_mem_nil
  rw [hbefore, ← partNames_eq_of_text htext]
  exact names_eq_iff ps'

end Names

section Declared

/-- The tokens declare a type whose base list has these parts. -/
inductive DeclaresBases (inType : Bool) : List Token → List BasePart → Prop where
  | mk {t colon stop : Token} {ts behind rest : List Token} {kind : NodeKind} {ps : List BasePart}
      (hglobal : inType = true ∨ isGlobalAttribute (t :: ts) = false)
      (hkind : itemKind inType (afterHead (ts.length + 1) (t :: ts)) = .type kind behind)
      (hlist : upTo (fun t => endsHeader t || t.isSign ":" || t.isWord "where") 0
        (typeName behind).2 = colon :: (ps.flatMap BasePart.tokens ++ stop :: rest))
      (hcolon : colon.isSign ":" = true) (hps : BaseList (isRecord kind) ps)
      (hstop : stop.endsBases = true) :
      DeclaresBases inType (t :: ts) ps

variable {inType : Bool} {ts ts' : List Token} {ps : List BasePart}

theorem typeHeader_of_baseList {whole : Bool} {colon stop : Token} {rest : List Token}
    (hlist : upTo (fun t => endsHeader t || t.isSign ":" || t.isWord "where") 0 ts =
      colon :: (ps.flatMap BasePart.tokens ++ stop :: rest))
    (hcolon : colon.isSign ":" = true) (hps : BaseList whole ps) (hstop : stop.endsBases = true) :
    (typeHeader whole ts).1 = [.inner .baseList none (ps.flatMap BasePart.nodes)] := by
  rw [typeHeader, hlist]
  dsimp only
  rw [if_pos hcolon, baseEntries_eq hps hstop]

theorem kind_of_mem_typeName {n : Node} (h : n ∈ (typeName ts).1) : n.kind ≠ .baseList := by
  unfold typeName at h
  split at h
  · split at h
    · obtain rfl := List.mem_singleton.mp h
      exact NodeKind.noConfusion
    · exact absurd h List.not_mem_nil
  · exact absurd h List.not_mem_nil

theorem bases_typeNode (ts : List Token) (kind : NodeKind) (line : Nat) (ps : List BasePart)
    (body : List Node) :
    (typeNode kind line ((typeName ts).1 ++
      [.inner .baseList none (ps.flatMap BasePart.nodes)] ++ body)).bases =
        ps.flatMap BasePart.names := by
  have hname : (typeName ts).1.find? (fun n => n.kind == .baseList) = none :=
    List.find?_eq_none.mpr fun n hn => by simpa using kind_of_mem_typeName hn
  have hlist : (typeNode kind line ((typeName ts).1 ++
      [.inner .baseList none (ps.flatMap BasePart.nodes)] ++ body)).childOfKind? .baseList =
        some (.inner .baseList none (ps.flatMap BasePart.nodes)) := by
    rw [Node.childOfKind?, typeNode, Node.children, List.append_assoc, List.find?_append, hname]
    rfl
  rw [Node.bases, hlist, ← baseNames_nodes]
  rfl

theorem DeclaresBases.bases_eq (h : DeclaresBases inType ts ps) (fuel : Nat) :
    (item (fuel + 1) inType ts).1.bases = ps.flatMap BasePart.names := by
  rcases h with @⟨t, colon, stop, ts, behind, rest, kind, ps, hglobal, hkind, hlist, hcolon, hps,
    hstop⟩
  have hnot : ¬ (!inType && isGlobalAttribute (t :: ts)) = true := by
    rcases hglobal with rfl | hglobal
    · exact Bool.false_ne_true
    · rw [hglobal, Bool.and_false]
      exact Bool.false_ne_true
  rw [item, if_neg hnot]
  dsimp only
  rw [hkind]
  dsimp only
  rw [typeHeader_of_baseList hlist hcolon hps hstop]
  generalize (typeHeader (isRecord kind) (typeName behind).2).2 = header
  have hbases := fun body => bases_typeNode behind kind t.line ps body
  cases header with
  | nil => simpa using hbases []
  | cons opening rest =>
    dsimp only
    split
    · simpa using hbases []
    · exact hbases _

theorem DeclaresBases.commented (h : DeclaresBases inType ts ps)
    (hcommented : MoreComments ts ts') :
    ∃ ps', List.Forall₂ BasePart.Commented ps ps' ∧ DeclaresBases inType ts' ps' := by
  rcases h with @⟨t, colon, stop, ts, behind, rest, kind, ps, hglobal, hkind, hlist, hcolon, hps,
    hstop⟩
  cases hcommented with
  | @cons _ t' _ ts' ht hs =>
    have hbehind := afterHead_commented (ts.length + 1) (.cons ht hs)
    have hcommented := itemKind_commented inType hbehind
    rw [hkind, hs.length_eq] at hcommented
    generalize hkind' : itemKind inType _ = kind' at hcommented
    cases hcommented with
    | @type _ _ behind' hbehind =>
      have hheader := headerStart_commented (typeName_commented hbehind).2
      rw [hlist] at hheader
      generalize hlist' : upTo _ 0 (typeName behind').2 = list' at hheader
      cases hheader with
      | cons hcolon' hlisted =>
        obtain ⟨ps', rest', rfl, hparts, hrest⟩ := exists_parts_commented hlisted
        cases hrest with
        | cons hstop' =>
          refine ⟨ps', hparts, .mk ?_ hkind' hlist' ?_ (hps.commented hparts) ?_⟩
          · exact hglobal.imp_right fun hnot =>
              (isGlobalAttribute_commented (.cons ht hs)).trans hnot
          · rwa [hcolon'.isSign]
          · rwa [hstop'.endsBases]

end Declared

section Result

/-- Comments put between the tokens of a script leave everything of its types as it was but bases.
A type that is declared at some token has as its bases the simple names of the parts of its base
list, and those of the comments that lie between the parts. -/
theorem bases_of_commented {t t' : Text} (h : Relation.ReflTransGen CommentPut t t') :
    List.Forall₂ Declaration.Commented (Declaration.ofText t) (Declaration.ofText t') ∧
    ∀ (n fuel : Nat) (inType : Bool) (ps : List BasePart),
      DeclaresBases inType ((Token.ofText t).drop n) ps →
      let d := (item (fuel + 1) inType ((Token.ofText t).drop n)).1.declaration
      let d' := (item (fuel + 1) inType ((Token.ofText t').drop n)).1.declaration
      ∃ ps', List.Forall₂ BasePart.Commented ps ps' ∧
        DeclaresBases inType ((Token.ofText t').drop n) ps' ∧
        d.bases = ps.flatMap BasePart.names ∧ d'.bases = ps'.flatMap BasePart.names ∧
        (∀ baseTypes, d'.derivesFromAny baseTypes = true ↔ ∃ b ∈ baseTypes,
          b ∈ partNames ps' ∨ ∃ p ∈ ps', ∃ c ∈ p.comments, TypeName.simple? c = some b) ∧
        ((∀ p ∈ ps, p.comments = []) →
          List.Forall₂ (fun p p' => BasePart.text p' = p.text) ps ps' →
          (d'.bases = d.bases ↔ ∀ p ∈ ps', ∀ c ∈ p.comments, TypeName.simple? c = none)) := by
  have hcommented := moreComments_of_commentPut h
  refine ⟨ofText_commented hcommented, fun n fuel inType ps hdeclares => ?_⟩
  obtain ⟨ps', hparts, hdeclares'⟩ := hdeclares.commented (List.forall₂_drop n hcommented)
  have hbases := hdeclares.bases_eq fuel
  have hbases' := hdeclares'.bases_eq fuel
  refine ⟨ps', hparts, hdeclares', hbases, hbases', fun baseTypes => ?_, fun hnone htext => ?_⟩
  · have hderives : (item (fuel + 1) inType ((Token.ofText t').drop n)).1.declaration.derivesFromAny
        baseTypes = (ps'.flatMap BasePart.names).any fun b => baseTypes.contains b :=
      congrArg (List.any · fun b => baseTypes.contains b) hbases'
    rw [hderives]
    simp only [List.any_eq_true, List.contains_iff_mem, mem_names_iff]
    exact exists_congr fun b => and_comm
  · rw [← names_eq_names_iff hnone htext, ← hbases, ← hbases']
    exact Iff.rfl

/-- A type with one base, and a comment in front of that base. -/
theorem bases_of_commented_of_one_comment :
    let t := "class Q : B \x7b \x7d".toList
    let t' := "class Q : /* game.C */ B \x7b \x7d".toList
    let b : BasePart := ⟨none, ⟨.word, ['B'], none, [' '], [], 1⟩, []⟩
    CommentPut t t' ∧ DeclaresBases false (Token.ofText t) [b] ∧
      List.Forall₂ Declaration.Commented (Declaration.ofText t) (Declaration.ofText t') ∧
      ∃ ps', List.Forall₂ BasePart.Commented [b] ps' ∧
        (item 1 false (Token.ofText t')).1.declaration.bases = ps'.flatMap BasePart.names := by
  repeat rw [String.toList_ofList]
  intro t t' b
  have hinside : ¬ ['*', '/'] <:+: " game.C ".toList := by decide +kernel
  have hgap : Gap [' '] [] := .space rfl .nil
  have hgap' := Gap.space (c := ' ') rfl (.block hinside hgap)
  have hput : CommentPut t t' := by
    refine .mk (Lexeme.ofText "class Q :".toList) hgap hgap' (List.nil_sublist _)
      (List.cons_ne_nil _ _) (List.cons_ne_nil 'B' " \x7b \x7d".toList) ?_ ?_ ?_ ?_
    · decide +kernel
    · decide +kernel
    · decide +kernel
    · decide +kernel
  have hlisted : BaseList false [b] :=
    ⟨List.forall_mem_singleton.mpr ⟨⟨rfl, rfl⟩, .nil⟩,
      fun p hp => by rw [← Option.some.inj hp], List.forall_mem_nil _, List.cons_ne_nil _ _⟩
  have hdeclares : DeclaresBases false (Token.ofText t) [b] :=
    .mk (Or.inr (by decide +kernel)) rfl rfl rfl hlisted rfl
  obtain ⟨htypes, hdeclared⟩ := bases_of_commented (Relation.ReflTransGen.single hput)
  obtain ⟨ps', hparts, -, -, hbases, -⟩ := hdeclared 0 0 false [b] hdeclares
  exact ⟨hput, hdeclares, htypes, ps', hparts, hbases⟩

/-- A comment between two entries of a base list is a base of the type by its simple name, so that
the type derives from it, and another type of the script is the primary one. -/
theorem not_bases_eq_of_comment :
    let t := "class P \x7b \x7d\nclass Q : B \x7b \x7d".toList
    let t' := "class P \x7b \x7d\nclass Q : // see game.MonoBehaviour\n B \x7b \x7d".toList
    let baseTypes := ["MonoBehaviour".toList]
    CommentPut t t' ∧
      (Declaration.ofText t).map Declaration.bases = [[], [['B']]] ∧
      (Declaration.ofText t').map Declaration.bases = [[], ["MonoBehaviour".toList, ['B']]] ∧
      (Declaration.ofText t).map (fun d => d.derivesFromAny baseTypes) = [false, false] ∧
      (Declaration.ofText t').map (fun d => d.derivesFromAny baseTypes) = [false, true] ∧
      (Declaration.primary? baseTypes (Declaration.ofText t)).map Declaration.name = some ['P'] ∧
      (Declaration.primary? baseTypes (Declaration.ofText t')).map Declaration.name =
        some ['Q'] := by
  repeat rw [String.toList_ofList]
  refine ⟨?_, by decide +kernel⟩
  have hinside : ∀ c ∈ " see game.MonoBehaviour".toList, isInLine c = true := by decide +kernel
  have hgap : Gap [' '] [] := .space rfl .nil
  have hgap' := Gap.space (c := ' ') rfl (.line hinside rfl (.space (c := '\n') rfl hgap))
  refine .mk (Lexeme.ofText "class P \x7b \x7d\nclass Q :".toList) hgap hgap'
    (List.nil_sublist _) (List.cons_ne_nil _ _) (List.cons_ne_nil 'B' " \x7b \x7d".toList)
    ?_ ?_ ?_ ?_
  · decide +kernel
  · decide +kernel
  · decide +kernel
  · decide +kernel

end Result

end SceneAudit.Script
